import Mathlib.Data.List.Forall2
import Highlighter.Proofs.Json.Spelling

/-! # The grammar of JSON

The values that are written are few, but a document may hold any.  Arrays and objects are taken
apart into the characters of their items, so that one item can be changed, put in or left out
while the others stay what they are. -/

set_option autoImplicit false

namespace Highlighter.Json

variable {α β : Type} {chars : List Char}

/-- The characters of an array with the given ones for each item. -/
def IsArray (items : List (List Char)) (chars : List Char) : Prop :=
  ∃ inside, chars = '[' :: inside ∧ SpellsItems ']' Eq true items inside

/-- The characters of an object with the given name and characters for each member. -/
def IsObject (members : List (String × List Char)) (chars : List Char) : Prop :=
  ∃ inside, chars = '\x7b' :: inside ∧ SpellsItems '\x7d' (SpellsMember Eq) true members inside

/-- What may stand between the quotes of a string.  The halves of a surrogate pair may be escaped
each on its own, though nothing is spelled that way. -/
inductive IsText : List Char → Prop where
  | nil : IsText []
  | plain {c : Char} {more : List Char} (notQuote : c ≠ '\x22') (notBackslash : c ≠ '\\')
      (notControl : 0x20 ≤ c.toNat) (tail : IsText more) : IsText (c :: more)
  | short {letter c : Char} {more : List Char} (known : (letter, c) ∈ shortEscapes)
      (tail : IsText more) : IsText ('\\' :: letter :: more)
  | code {code : Nat} {digits more : List Char} (spelled : SpellsCode code digits)
      (tail : IsText more) : IsText ('\\' :: 'u' :: (digits ++ more))

def IsDigits (chars : List Char) : Prop := chars ≠ [] ∧ ∀ c ∈ chars, c.isDigit = true

inductive IsScalar : List Char → Prop where
  | literal {name : String} (known : name ∈ ["null", "true", "false"]) : IsScalar name.toList
  | number {sign whole fraction exponent : List Char} (signed : sign = [] ∨ sign = ['-'])
      (digits : IsDigits whole) (noLeadingZero : whole.head? = some '0' → whole = ['0'])
      (fractional : fraction = [] ∨ ∃ digits, IsDigits digits ∧ fraction = '.' :: digits)
      (scaled : exponent = [] ∨ ∃ mark ∈ ['e', 'E'], ∃ sign ∈ [[], ['+'], ['-']], ∃ digits,
        IsDigits digits ∧ exponent = mark :: sign ++ digits) :
      IsScalar (sign ++ whole ++ fraction ++ exponent)

/-- The characters of any JSON value. -/
inductive IsValue : List Char → Prop where
  | scalar {chars : List Char} (scalar : IsScalar chars) : IsValue chars
  | string {body : List Char} (laid : IsText body) :
      IsValue ('\x22' :: body ++ ['\x22'])
  | array {items : List (List Char)} {chars : List Char} (laid : IsArray items chars)
      (values : ∀ item ∈ items, IsValue item) : IsValue chars
  | object {members : List (String × List Char)} {chars : List Char}
      (laid : IsObject members chars) (values : ∀ member ∈ members, IsValue member.2) :
      IsValue chars

def startsScalar (c : Char) : Bool := c ∈ ['n', 't', 'f', '-'] || c.isDigit

theorem IsScalar.exists_cons (scalar : IsScalar chars) :
    ∃ c more, chars = c :: more ∧ startsScalar c = true := by
  cases scalar with
  | literal known =>
      simp only [List.mem_cons, List.not_mem_nil, or_false] at known
      rcases known with rfl | rfl | rfl
      all_goals exact ⟨_, _, rfl, rfl⟩
  | @number sign whole fraction exponent signed digits =>
      rcases signed with rfl | rfl
      · obtain ⟨nonempty, all⟩ := digits
        cases whole with
        | nil => exact absurd rfl nonempty
        | cons c more => exact ⟨c, _, rfl, by simp [startsScalar, all c List.mem_cons_self]⟩
      · exact ⟨_, _, rfl, rfl⟩

theorem isSpace_eq_false_of_startsScalar {c : Char} (start : startsScalar c = true) :
    isSpace c = false := by
  apply Bool.eq_false_iff.mpr
  intro blank
  simp only [isSpace, Bool.or_eq_true, beq_iff_eq] at blank
  rcases blank with ((rfl | rfl) | rfl) | rfl
  all_goals contradiction

theorem IsValue.exists_cons (value : IsValue chars) :
    ∃ c more, chars = c :: more ∧ isSpace c = false ∧ c ≠ ']' := by
  cases value with
  | scalar scalar =>
      obtain ⟨c, more, rfl, start⟩ := scalar.exists_cons
      refine ⟨c, more, rfl, isSpace_eq_false_of_startsScalar start, ?_⟩
      rintro rfl
      contradiction
  | string => exact ⟨_, _, rfl, rfl, by decide⟩
  | array laid =>
      obtain ⟨inside, rfl, _⟩ := laid
      exact ⟨_, _, rfl, rfl, by decide⟩
  | object laid =>
      obtain ⟨inside, rfl, _⟩ := laid
      exact ⟨_, _, rfl, rfl, by decide⟩

/-! ## The first character of a value -/

theorem IsValue.exists_text {more : List Char} (value : IsValue ('\x22' :: more)) :
    ∃ body, IsText body ∧ more = body ++ ['\x22'] := by
  generalize laid : '\x22' :: more = chars at value
  cases value with
  | scalar scalar =>
      obtain ⟨c, others, rfl, start⟩ := scalar.exists_cons
      obtain ⟨rfl, _⟩ := List.cons.inj laid
      contradiction
  | @string body text => exact ⟨body, text, (List.cons.inj laid).2⟩
  | array array =>
      obtain ⟨inside, rfl, _⟩ := array
      simp at laid
  | object object =>
      obtain ⟨inside, rfl, _⟩ := object
      simp at laid

theorem IsValue.exists_items {more : List Char} (value : IsValue ('[' :: more)) :
    ∃ items, (∀ item ∈ items, IsValue item) ∧ SpellsItems ']' Eq true items more := by
  generalize laid : '[' :: more = chars at value
  cases value with
  | scalar scalar =>
      obtain ⟨c, others, rfl, start⟩ := scalar.exists_cons
      obtain ⟨rfl, _⟩ := List.cons.inj laid
      contradiction
  | string => simp at laid
  | array array values =>
      obtain ⟨inside, rfl, spelled⟩ := array
      obtain ⟨_, rfl⟩ := List.cons.inj laid
      exact ⟨_, values, spelled⟩
  | object object =>
      obtain ⟨inside, rfl, _⟩ := object
      simp at laid

theorem IsValue.exists_members {more : List Char} (value : IsValue ('\x7b' :: more)) :
    ∃ members, (∀ member ∈ members, IsValue member.2) ∧
      SpellsItems '\x7d' (SpellsMember Eq) true members more := by
  generalize laid : '\x7b' :: more = chars at value
  cases value with
  | scalar scalar =>
      obtain ⟨c, others, rfl, start⟩ := scalar.exists_cons
      obtain ⟨rfl, _⟩ := List.cons.inj laid
      contradiction
  | string => simp at laid
  | array array =>
      obtain ⟨inside, rfl, _⟩ := array
      simp at laid
  | object object values =>
      obtain ⟨inside, rfl, spelled⟩ := object
      obtain ⟨_, rfl⟩ := List.cons.inj laid
      exact ⟨_, values, spelled⟩

/-! ## Spellings taken apart -/

theorem exists_of_mem_right {link : α → β → Prop} {values : List α} {items : List β} {item : β}
    (linked : List.Forall₂ link values items) (member : item ∈ items) :
    ∃ value ∈ values, link value item := by
  induction linked with
  | nil => contradiction
  | @cons value first values items head _ ih =>
      rcases List.mem_cons.mp member with rfl | member
      · exact ⟨value, List.mem_cons_self, head⟩
      · obtain ⟨other, inside, linked⟩ := ih member
        exact ⟨other, List.mem_cons_of_mem value inside, linked⟩

theorem SpellsItems.exists_forall₂ {closing : Char} {spells : α → List Char → Prop}
    {spells' : β → List Char → Prop} {link : α → β → Prop} {first : Bool} {values : List α}
    (spelled : SpellsItems closing spells first values chars)
    (each : ∀ value chars, spells value chars → ∃ item, link value item ∧ spells' item chars) :
    ∃ items, List.Forall₂ link values items ∧ SpellsItems closing spells' first items chars := by
  induction spelled with
  | stop blank => exact ⟨[], .nil, .stop blank⟩
  | item apart head _ ih =>
      obtain ⟨item, linked, spelled⟩ := each _ _ head
      obtain ⟨items, others, spelled'⟩ := ih
      exact ⟨item :: items, .cons linked others, .item apart spelled spelled'⟩

theorem SpellsItems.of_forall₂ {closing : Char} {spells : α → List Char → Prop}
    {spells' : β → List Char → Prop} {link : α → β → Prop} {values : List α} {items : List β}
    (linked : List.Forall₂ link values items)
    (each : ∀ value item chars, link value item → spells' item chars → spells value chars) :
    ∀ {first : Bool} {chars : List Char}, SpellsItems closing spells' first items chars →
      SpellsItems closing spells first values chars := by
  induction linked with
  | nil =>
      intro first chars spelled
      cases spelled with
      | stop blank => exact .stop blank
  | cons head _ ih =>
      intro first chars spelled
      cases spelled with
      | item apart spelled tail => exact .item apart (each _ _ _ head spelled) (ih tail)

theorem exists_isArray {items : List Json} (spelled : Spells (.array items) chars) :
    ∃ texts, List.Forall₂ Spells items texts ∧ IsArray texts chars := by
  cases spelled with
  | array spelled =>
      obtain ⟨texts, linked, laid⟩ := spelled.exists_forall₂ fun value chars spelled =>
        ⟨chars, spelled, rfl⟩
      exact ⟨texts, linked, _, rfl, laid⟩

theorem exists_isObject {fields : List (String × Json)} (spelled : Spells (.object fields) chars) :
    ∃ members, List.Forall₂ (fun field member => ∃ text, Spells field.2 text ∧
      member = (field.1, text)) fields members ∧ IsObject members chars := by
  have each : ∀ (field : String × Json) chars, SpellsMember Spells field chars →
      ∃ member : String × List Char, (∃ text, Spells field.2 text ∧ member = (field.1, text)) ∧
        SpellsMember Eq member chars := by
    intro field chars spelled
    cases spelled with
    | intro named blank blank' spelled =>
        exact ⟨_, ⟨_, spelled, rfl⟩, .intro named blank blank' rfl⟩
  cases spelled with
  | object spelled =>
      obtain ⟨members, linked, laid⟩ := spelled.exists_forall₂ each
      exact ⟨members, linked, _, rfl, laid⟩

/-! ## What is written -/

theorem SpellsText.isText {text body : List Char} (spelled : SpellsText text body) :
    IsText body := by
  induction spelled with
  | nil => exact .nil
  | cons head _ ih =>
      cases head with
      | plain notQuote notBackslash notControl => exact .plain notQuote notBackslash notControl ih
      | short known => exact .short known ih
      | code spelled => exact .code spelled ih
      | @pair _ _ _ digits digits' _ _ _ spelled spelled' =>
          rw [List.append_assoc]
          exact .code spelled (.code spelled' ih)

theorem isDigit_of_mem_writeNat {c : Char} {value : Nat} (member : c ∈ writeNat value) :
    c.isDigit = true :=
  Nat.isDigit_of_mem_toDigits (by decide) (by decide) member

theorem eq_zero_of_head?_writeNat (value : Nat) :
    (writeNat value).head? = some '0' → value = 0 := by
  induction value using Nat.strongRecOn with
  | ind value ih =>
      intro head
      rcases Nat.lt_or_ge value 10 with small | large
      · have every : ∀ digit : Fin 10, (writeNat digit).head? = some '0' → digit.val = 0 := by
          decide
        exact every ⟨value, small⟩ head
      · rw [writeNat, Nat.toDigits_of_base_le (by decide) large,
          List.head?_append_of_ne_nil _ Nat.toDigits_ne_nil] at head
        have front := ih (value / 10) (by omega) head
        omega

theorem isScalar_writeNat (value : Nat) : IsScalar (writeNat value) := by
  have digits : IsDigits (writeNat value) :=
    ⟨Nat.toDigits_ne_nil, fun c member => isDigit_of_mem_writeNat member⟩
  have noLeadingZero : (writeNat value).head? = some '0' → writeNat value = ['0'] := by
    intro head
    rw [eq_zero_of_head?_writeNat value head]
    rfl
  have number := IsScalar.number (.inl rfl) digits noLeadingZero (.inl rfl) (.inl rfl)
  simpa using number

theorem Spells.isValue {json : Json} :
    ∀ {chars : List Char}, Spells json chars → IsValue chars := by
  induction json using compactChars.induct with
  | case1 text =>
      intro chars spelled
      cases spelled with
      | string spelled => exact .string spelled.isText
  | case2 value =>
      intro chars spelled
      cases spelled with
      | number => exact .scalar (isScalar_writeNat value)
  | case3 items ih =>
      intro chars spelled
      obtain ⟨texts, linked, laid⟩ := exists_isArray spelled
      refine .array laid fun text member => ?_
      obtain ⟨item, inside, spelled⟩ := exists_of_mem_right linked member
      exact ih item inside spelled
  | case4 fields ih =>
      intro chars spelled
      obtain ⟨members, linked, laid⟩ := exists_isObject spelled
      refine .object laid fun member listed => ?_
      obtain ⟨field, inside, text, spelled, rfl⟩ := exists_of_mem_right linked listed
      exact ih field inside spelled

/-- No value starts with white space or with the end of an array. -/
theorem Spells.exists_cons {json : Json} (spelled : Spells json chars) :
    ∃ c more, chars = c :: more ∧ isSpace c = false ∧ c ≠ ']' :=
  spelled.isValue.exists_cons

end Highlighter.Json
