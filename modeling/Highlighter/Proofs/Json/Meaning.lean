import Highlighter.Proofs.Json.Reading

/-! # What a spelling means

Characters spell at most one value.  No value is spelled by the beginning of another spelling
either, as long as no digit comes after it: this is what lets two readings of one text be compared
item by item. -/

set_option autoImplicit false

namespace Highlighter.Json

variable {α : Type} {c c' : Char} {space space' rest rest' : List Char}

/-- No number goes on in `rest`. -/
def Ends (rest : List Char) : Prop := ∀ c ∈ rest.head?, c.isDigit = false

/-- Of two spellings, the one not longer than `size`, with different characters after them, both
values and both rests are the same. -/
def IsUnambiguous (size : Nat) (spells : α → List Char → Prop) : Prop :=
  ∀ ⦃value value' : α⦄ ⦃chars chars' rest rest' : List Char⦄, chars.length ≤ size →
    spells value chars → spells value' chars' → Ends rest → Ends rest' →
      chars ++ rest = chars' ++ rest' → value = value' ∧ rest = rest'

/-! ## White space and separators -/

theorem isDigit_eq_false_of_isSpace (blank : isSpace c = true) : c.isDigit = false := by
  simp only [isSpace, Bool.or_eq_true, beq_iff_eq] at blank
  rcases blank with ((rfl | rfl) | rfl) | rfl
  all_goals rfl

theorem ends_blank (blank : IsBlank space) (solid : c.isDigit = false) (rest : List Char) :
    Ends (space ++ c :: rest) := by
  intro first head
  cases space with
  | nil =>
      obtain rfl : c = first := by simpa using head
      exact solid
  | cons other more =>
      obtain rfl : other = first := by simpa using head
      exact isDigit_eq_false_of_isSpace (blank other List.mem_cons_self)

theorem blank_inj (blank : IsBlank space) (blank' : IsBlank space') (solid : isSpace c = false)
    (solid' : isSpace c' = false) (same : space ++ c :: rest = space' ++ c' :: rest') :
    c = c' ∧ rest = rest' := by
  have left := congrArg (List.dropWhile isSpace) same
  rw [dropWhile_blank blank, dropWhile_blank blank',
    List.dropWhile_cons_of_neg (by simp [solid]),
    List.dropWhile_cons_of_neg (by simp [solid'])] at left
  exact List.cons.inj left

theorem separator_inj {first : Bool} {separator separator' : List Char}
    (apart : IsSeparator first separator) (apart' : IsSeparator first separator')
    (solid : isSpace c = false) (solid' : isSpace c' = false)
    (same : separator ++ c :: rest = separator' ++ c' :: rest') : c = c' ∧ rest = rest' := by
  cases apart with
  | first blank =>
      cases apart' with
      | first blank' => exact blank_inj blank blank' solid solid' same
  | comma blank gap =>
      cases apart' with
      | comma blank' gap' =>
          rw [List.append_assoc, List.append_assoc, List.cons_append, List.cons_append] at same
          exact blank_inj gap gap' solid solid' (blank_inj blank blank' rfl rfl same).2

theorem stop_ne_item {first : Bool} {closing : Char} {separator : List Char}
    (blank : IsBlank space) (apart : IsSeparator first separator)
    (closingSolid : isSpace closing = false) (notComma : closing ≠ ',') (solid : isSpace c = false)
    (notClosing : c ≠ closing) : space ++ closing :: rest ≠ separator ++ c :: rest' := by
  intro same
  cases apart with
  | first blank' => exact notClosing (blank_inj blank blank' closingSolid solid same).1.symm
  | comma blank' gap =>
      rw [List.append_assoc, List.cons_append] at same
      exact notComma (blank_inj blank blank' closingSolid rfl same).1

/-! ## Items and members -/

section Items

variable {closing : Char} {spells : α → List Char → Prop} {first : Bool} {values : List α}
  {chars : List Char}

theorem SpellsItems.ends (notDigit : closing.isDigit = false)
    (spelled : SpellsItems closing spells false values chars) (rest : List Char) :
    Ends (chars ++ rest) := by
  cases spelled with
  | stop blank =>
      rw [List.append_assoc]
      exact ends_blank blank notDigit rest
  | item apart _ _ =>
      cases apart with
      | comma blank gap =>
          simp only [List.append_assoc, List.cons_append]
          exact ends_blank blank rfl _

theorem SpellsItems.unique {size : Nat} (unique : IsUnambiguous size spells)
    (starts : ∀ value chars, spells value chars →
      ∃ c more, chars = c :: more ∧ isSpace c = false ∧ c ≠ closing)
    (closingSolid : isSpace closing = false) (notComma : closing ≠ ',')
    (notDigit : closing.isDigit = false) (spelled : SpellsItems closing spells first values chars) :
    ∀ {values' : List α} {chars' rest rest' : List Char}, chars.length ≤ size →
      SpellsItems closing spells first values' chars' → chars ++ rest = chars' ++ rest' →
        values = values' ∧ rest = rest' := by
  induction spelled with
  | stop blank =>
      intro values' chars' rest rest' bound spelled' same
      cases spelled' with
      | stop blank' =>
          rw [List.append_assoc, List.append_assoc] at same
          exact ⟨rfl, (blank_inj blank blank' closingSolid closingSolid same).2⟩
      | item apart head _ =>
          obtain ⟨c, others, rfl, solid, notClosing⟩ := starts _ _ head
          simp only [List.append_assoc, List.cons_append, List.nil_append] at same
          exact absurd same (stop_ne_item blank apart closingSolid notComma solid notClosing)
  | @item first value values separator chars more apart head tail ih =>
      intro values' chars' rest rest' bound spelled' same
      obtain ⟨c, others, rfl, solid, notClosing⟩ := starts _ _ head
      cases spelled' with
      | stop blank' =>
          simp only [List.append_assoc, List.cons_append, List.nil_append] at same
          exact absurd same.symm (stop_ne_item blank' apart closingSolid notComma solid notClosing)
      | @item _ value' values' separator' chars' more' apart' head' tail' =>
          obtain ⟨c', others', rfl, solid', _⟩ := starts _ _ head'
          simp only [List.append_assoc, List.cons_append] at same
          obtain ⟨rfl, stream⟩ := separator_inj apart apart' solid solid' same
          simp only [List.length_append, List.length_cons] at bound
          have short : (c :: others).length ≤ size := by
            rw [List.length_cons]
            omega
          have left : more.length ≤ size := by omega
          have whole : (c :: others) ++ (more ++ rest) = (c :: others') ++ (more' ++ rest') := by
            rw [List.cons_append, List.cons_append, stream]
          obtain ⟨rfl, later⟩ := unique short head head' (tail.ends notDigit rest)
            (tail'.ends notDigit rest') whole
          obtain ⟨rfl, last⟩ := ih left tail' later
          exact ⟨rfl, last⟩

end Items

theorem readStringBody_inj {text text' : String} {body body' : List Char}
    (spelled : SpellsText text.toList body) (spelled' : SpellsText text'.toList body')
    (same : body ++ '\x22' :: rest = body' ++ '\x22' :: rest') : text = text' ∧ rest = rest' := by
  have read := readStringBody_spelled spelled rest
  rw [same, readStringBody_spelled spelled' rest'] at read
  obtain ⟨texts, rests⟩ := EStateM.Result.ok.inj read
  exact ⟨texts.symm, rests.symm⟩

theorem IsUnambiguous.member {size : Nat} {spells : α → List Char → Prop}
    (unique : IsUnambiguous size spells)
    (starts : ∀ value chars, spells value chars →
      ∃ c more, chars = c :: more ∧ isSpace c = false) :
    IsUnambiguous size (SpellsMember spells) := by
  rintro _ _ _ _ rest rest' bound
    (@⟨name, value, key, space, gap, chars, named, blank, gapBlank, spelled⟩)
    (@⟨name', value', key', space', gap', chars', named', blank', gapBlank', spelled'⟩)
    ends ends' same
  obtain ⟨c, others, rfl, solid⟩ := starts _ _ spelled
  obtain ⟨c', others', rfl, solid'⟩ := starts _ _ spelled'
  simp only [List.append_assoc, List.cons_append, List.cons.injEq, true_and] at same
  obtain ⟨rfl, colon⟩ := readStringBody_inj named named' same
  obtain ⟨_, gap⟩ := blank_inj blank blank' rfl rfl colon
  obtain ⟨rfl, stream⟩ := blank_inj gapBlank gapBlank' solid solid' gap
  have short : (c :: others).length ≤ size := by
    simp only [List.length_append, List.length_cons] at bound ⊢
    omega
  have whole : (c :: others) ++ rest = (c :: others') ++ rest' := by
    rw [List.cons_append, List.cons_append, stream]
  obtain ⟨rfl, last⟩ := unique short spelled spelled' ends ends' whole
  exact ⟨rfl, last⟩

/-! ## Numbers -/

theorem writeNat_append_ne {value : Nat} (notDigit : c.isDigit = false) :
    writeNat value ++ rest ≠ c :: rest' := by
  intro same
  cases laid : writeNat value with
  | nil => exact Nat.toDigits_ne_nil laid
  | cons first more =>
      rw [laid, List.cons_append] at same
      have member : first ∈ writeNat value := by
        rw [laid]
        exact List.mem_cons_self
      have digit := isDigit_of_mem_writeNat member
      rw [(List.cons.inj same).1, notDigit] at digit
      contradiction

theorem takeWhile_writeNat {value : Nat} (ends : Ends rest) :
    (writeNat value ++ rest).takeWhile Char.isDigit = writeNat value := by
  have none : rest.takeWhile Char.isDigit = [] := by
    cases rest with
    | nil => rfl
    | cons c more => exact List.takeWhile_cons_of_neg (by simp [ends c rfl])
  rw [List.takeWhile_append_of_pos fun c => isDigit_of_mem_writeNat, none, List.append_nil]

theorem writeNat_append_inj {value value' : Nat} (ends : Ends rest) (ends' : Ends rest')
    (same : writeNat value ++ rest = writeNat value' ++ rest') : value = value' ∧ rest = rest' := by
  have digits := congrArg (List.takeWhile Char.isDigit) same
  rw [takeWhile_writeNat ends, takeWhile_writeNat ends'] at digits
  have values := congrArg (Nat.ofDigitChars 10 · 0) digits
  simp only [writeNat, Nat.ofDigitChars_toDigits (by decide : 1 < 10) (by decide : 10 ≤ 10)]
    at values
  rw [digits] at same
  exact ⟨values, List.append_cancel_left same⟩

/-! ## Values -/

theorem SpellsMember.exists_cons {spells : α → List Char → Prop} {member : String × α}
    {chars : List Char} (spelled : SpellsMember spells member chars) :
    ∃ c more, chars = c :: more ∧ isSpace c = false ∧ c ≠ '\x7d' := by
  cases spelled with
  | intro => exact ⟨_, _, rfl, rfl, by decide⟩

theorem isUnambiguous_spells (size : Nat) : IsUnambiguous size Spells := by
  -- on the length of the spelling, since the items of a value have shorter ones
  induction size with
  | zero =>
      intro json json' chars chars' rest rest' bound spelled
      obtain ⟨c, more, rfl, _, _⟩ := spelled.exists_cons
      simp at bound
  | succ size ih =>
      intro json json' chars chars' rest rest' bound spelled spelled' ends ends' same
      cases spelled with
      | string body =>
          cases spelled' with
          | string body' =>
              simp only [List.append_assoc, List.cons_append, List.nil_append, List.cons.injEq,
                true_and] at same
              obtain ⟨rfl, last⟩ := readStringBody_inj body body' same
              exact ⟨rfl, last⟩
          | number value => exact absurd same.symm (writeNat_append_ne rfl)
          | array => simp at same
          | object => simp at same
      | number value =>
          cases spelled' with
          | string => exact absurd same (writeNat_append_ne rfl)
          | number value' =>
              obtain ⟨rfl, last⟩ := writeNat_append_inj ends ends' same
              exact ⟨rfl, last⟩
          | array => exact absurd same (writeNat_append_ne rfl)
          | object => exact absurd same (writeNat_append_ne rfl)
      | array items =>
          cases spelled' with
          | string => simp at same
          | number value => exact absurd same.symm (writeNat_append_ne rfl)
          | array items' =>
              have short := Nat.le_of_succ_le_succ bound
              obtain ⟨rfl, last⟩ := items.unique ih (fun _ _ item => item.exists_cons) rfl
                (by decide) rfl short items' (List.cons.inj same).2
              exact ⟨rfl, last⟩
          | object => simp at same
      | object fields =>
          cases spelled' with
          | string => simp at same
          | number value => exact absurd same.symm (writeNat_append_ne rfl)
          | array => simp at same
          | object fields' =>
              have short := Nat.le_of_succ_le_succ bound
              have starts : ∀ value chars, Spells value chars →
                  ∃ c more, chars = c :: more ∧ isSpace c = false := by
                intro value chars spelled
                obtain ⟨c, more, laid, solid, _⟩ := spelled.exists_cons
                exact ⟨c, more, laid, solid⟩
              obtain ⟨rfl, last⟩ := fields.unique (ih.member starts)
                (fun _ _ member => member.exists_cons) rfl (by decide) rfl short fields'
                (List.cons.inj same).2
              exact ⟨rfl, last⟩

/-- No characters spell two values. -/
theorem Spells.unique {json json' : Json} {chars : List Char} (spelled : Spells json chars)
    (spelled' : Spells json' chars) : json = json' := by
  have ends : Ends [] := by simp [Ends]
  exact (isUnambiguous_spells chars.length (Nat.le_refl _) spelled spelled' ends ends rfl).1

end Highlighter.Json
