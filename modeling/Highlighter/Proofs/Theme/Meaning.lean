import Highlighter.Proofs.Json.Acceptance
import Highlighter.Proofs.Theme.Document
import Highlighter.Proofs.Theme.Specification

/-! # Theme documents by their meaning

Whatever its spelling, a document gives the theme of the specification that it means, or is refused
as the specification is.  Its objects have to be exact: one member too many or too few in any of
them, and the document is none. -/

set_option autoImplicit false

namespace Highlighter

open Json

variable {chars : List Char} {members : List (String × List Char)}

/-! ## Documents that mean nothing -/

namespace GroupSpec

/-- An object for the group, but for one wrong member. -/
def IsSpoiledBy (group : GroupSpec) (chars : List Char) : Prop :=
  ∃ members changed, group.HasMembers members ∧
    IsSpoiled ["name", "color", "keywords"] ["name", "color", "keywords"] members changed ∧
    IsObject changed chars

/-- The member for a list of groups, but for a wrong member in one of them. -/
def AreSpoiledBy (groups : List GroupSpec) (members : List (String × List Char)) : Prop :=
  ∃ before group after items item items' chars, groups = before ++ group :: after ∧
    List.Forall₂ IsSpelledBy before items ∧ group.IsSpoiledBy item ∧
    List.Forall₂ IsSpelledBy after items' ∧ IsArray (items ++ item :: items') chars ∧
    members = [("groups", chars)]

end GroupSpec

/-- An object for the specification, but for one wrong member of its own or of a group. -/
def ThemeSpec.IsSpoiledBy (spec : ThemeSpec) (chars : List Char) : Prop :=
  (∃ members changed, spec.HasMembers GroupSpec.AreSpelledBy members ∧
    IsSpoiled ["default", "string", "groups"] ["default", "string"] members changed ∧
    IsObject changed chars) ∨
  ∃ members, spec.HasMembers GroupSpec.AreSpoiledBy members ∧ IsObject members chars

/-! ## Groups -/

theorem stopsAfter_readColor : StopsAfter readColor := by
  apply stopsAfter_readString.bind
  intro text rest after color read
  cases parsed : Color.parse text with
  | ok color' =>
      simp only [parsed] at read
      exact (EStateM.Result.ok.inj read).2.symm
  | error fault =>
      simp only [parsed] at read
      contradiction

namespace GroupSpec

theorem isLawful_shape : shape.IsLawful ["name", "color", "keywords"] := by
  constructor
  case stops =>
    intro field listed known
    simp only [shape, List.mem_cons, List.not_mem_nil, or_false] at listed
    rcases listed with rfl | rfl | rfl
    · exact stopsAfter_readString.store _
    · exact stopsAfter_readColor.store _
    · exact (stopsAfter_readList stopsAfter_readString).store _
  case reads =>
    intro field listed known next rest after read other listed'
    simp only [shape, List.mem_cons, List.not_mem_nil, or_false] at listed listed'
    rcases listed with rfl | rfl | rfl
    all_goals
      obtain ⟨value, _, rfl⟩ := exists_of_store_ok read
      rcases listed' with rfl | rfl | rfl
      all_goals simp
  case unknown => simp [shape]
  case finish =>
    rintro ⟨_ | name, _ | color, _ | keywords⟩ value done
    case some.some.some => simp [shape]
    all_goals contradiction

theorem stopsAfter_read : StopsAfter shape.read := Shape.stopsAfter_read isLawful_shape.stops

variable {group : GroupSpec} {groups : List GroupSpec}

theorem IsSpoiledBy.isValue (spoiled : group.IsSpoiledBy chars) : IsValue chars := by
  obtain ⟨members, changed, has, spoiled, laid⟩ := spoiled
  exact .object laid (spoiled.isValue has.isValue)

theorem IsSpoiledBy.not_accepts (spoiled : group.IsSpoiledBy chars) (value : GroupSpec) :
    ¬ Accepts shape.read chars value := by
  obtain ⟨members, changed, has, spoiled, laid⟩ := spoiled
  intro accepted
  have names := (isLawful_shape.accepts laid (spoiled.isValue has.isValue) accepted).1
  exact spoiled.not_areNames has.distinct names

theorem isValue_of_forall₂ {items : List (List Char)}
    (spelled : List.Forall₂ IsSpelledBy groups items) : ∀ item ∈ items, IsValue item := by
  intro item listed
  obtain ⟨group, _, spelled⟩ := exists_of_mem_right spelled listed
  exact spelled.isValue

theorem AreSpelledBy.isValue (spelled : AreSpelledBy groups members) :
    ∀ member ∈ members, IsValue member.2 := by
  rcases spelled with ⟨_, rfl⟩ | ⟨items, chars, spelled, array, rfl⟩
  · simp
  · intro member listed
    rw [List.mem_singleton.mp listed]
    exact .array array (isValue_of_forall₂ spelled)

/-- The one array of groups, among whose items a spoiled group is. -/
theorem AreSpoiledBy.exists_items (spoiled : AreSpoiledBy groups members) :
    ∃ items chars, members = [("groups", chars)] ∧ IsArray items chars ∧
      (∀ item ∈ items, IsValue item) ∧
      ∃ group : GroupSpec, ∃ item ∈ items, group.IsSpoiledBy item := by
  obtain ⟨before, group, after, items, item, items', chars, _, spelled, spoiled, spelled', array,
    rfl⟩ := spoiled
  refine ⟨_, chars, rfl, array, ?_, group, item, by simp, spoiled⟩
  intro other listed
  rcases List.mem_append.mp listed with listed | listed
  · exact isValue_of_forall₂ spelled other listed
  rcases List.mem_cons.mp listed with rfl | listed
  · exact spoiled.isValue
  · exact isValue_of_forall₂ spelled' other listed

theorem AreSpoiledBy.isValue (spoiled : AreSpoiledBy groups members) :
    ∀ member ∈ members, IsValue member.2 := by
  obtain ⟨items, chars, rfl, array, values, _⟩ := spoiled.exists_items
  intro member listed
  rw [List.mem_singleton.mp listed]
  exact .array array values

end GroupSpec

namespace ThemeSpec

variable {spec : ThemeSpec} {groups : List Char}
  {spells : List GroupSpec → List (String × List Char) → Prop}

theorem isLawful_shape : shape.IsLawful ["default", "string"] := by
  constructor
  case stops =>
    intro field listed known
    simp only [shape, List.mem_cons, List.not_mem_nil, or_false] at listed
    rcases listed with rfl | rfl | rfl
    · exact stopsAfter_readColor.store _
    · exact stopsAfter_readColor.store _
    · exact (stopsAfter_readList GroupSpec.stopsAfter_read).store _
  case reads =>
    intro field listed known next rest after read other listed'
    simp only [shape, List.mem_cons, List.not_mem_nil, or_false] at listed listed'
    rcases listed with rfl | rfl | rfl
    all_goals
      obtain ⟨value, _, rfl⟩ := exists_of_store_ok read
      rcases listed' with rfl | rfl | rfl
      all_goals simp
  case unknown => simp [shape]
  case finish =>
    rintro ⟨_ | plain, _ | literal, groups⟩ value done
    case some.some => simp [shape]
    all_goals contradiction

theorem HasMembers.isValue (has : spec.HasMembers spells members)
    (values : ∀ groups members, spells groups members → ∀ member ∈ members, IsValue member.2) :
    ∀ member ∈ members, IsValue member.2 := by
  obtain ⟨plain, literal, groups, ⟨_, _, ofPlain⟩, ⟨_, _, ofLiteral⟩, ofGroups, order⟩ := has
  intro member listed
  have inside := order.mem_iff.mp listed
  simp only [List.mem_cons] at inside
  rcases inside with rfl | rfl | inside
  · exact ofPlain.isValue
  · exact ofLiteral.isValue
  · exact values _ _ ofGroups member inside

theorem exists_accepts_groups {value : ThemeSpec} {items : List (List Char)}
    (laid : IsObject members chars) (values : ∀ member ∈ members, IsValue member.2)
    (listed : ("groups", groups) ∈ members) (array : IsArray items groups)
    (isValue : ∀ item ∈ items, IsValue item) (accepted : Accepts shape.read chars value) :
    ∀ item ∈ items, ∃ group, Accepts GroupSpec.shape.read item group := by
  obtain ⟨field, known, next, found, space, rest, blank, read⟩ :=
    (isLawful_shape.accepts laid values accepted).2 _ listed
  obtain rfl := Option.some.inj found
  obtain ⟨groups, taken, _⟩ := exists_of_store_ok read
  exact (readList_accepted GroupSpec.stopsAfter_read array isValue blank taken).2

theorem IsSpoiledBy.not_accepts (spoiled : spec.IsSpoiledBy chars) (value : ThemeSpec) :
    ¬ Accepts shape.read chars value := by
  intro accepted
  rcases spoiled with ⟨members, changed, has, spoiled, laid⟩ | ⟨members, has, laid⟩
  · have own := has.isValue fun groups members => GroupSpec.AreSpelledBy.isValue
    have values := spoiled.isValue own
    exact spoiled.not_areNames has.distinct (isLawful_shape.accepts laid values accepted).1
  · have values := has.isValue fun groups members => GroupSpec.AreSpoiledBy.isValue
    obtain ⟨plain, literal, groups, _, _, spoiled, order⟩ := has
    obtain ⟨items, chars, rfl, array, isValue, group, item, inside, spoiled⟩ := spoiled.exists_items
    have listed : ("groups", chars) ∈ members := order.mem_iff.mpr (by simp)
    obtain ⟨group', accepted⟩ :=
      exists_accepts_groups laid values listed array isValue accepted item inside
    exact spoiled.not_accepts group' accepted

theorem IsSpoiledBy.isValue (spoiled : spec.IsSpoiledBy chars) : IsValue chars := by
  rcases spoiled with ⟨members, changed, has, spoiled, laid⟩ | ⟨members, has, laid⟩
  · have own := has.isValue fun groups members => GroupSpec.AreSpelledBy.isValue
    exact .object laid (spoiled.isValue own)
  · exact .object laid (has.isValue fun groups members => GroupSpec.AreSpoiledBy.isValue)

theorem exists_parse_error {document : String} (spoiled : IsDocument spec.IsSpoiledBy document) :
    ∃ error, parse document = .error error := by
  obtain ⟨space, chars, trail, blank, spoiled, _, laid⟩ := spoiled
  cases read : parse document with
  | error error => exact ⟨error, rfl⟩
  | ok value =>
      have stops := Shape.stopsAfter_read isLawful_shape.stops
      have accepted := accepts_of_readDocument_ok stops blank spoiled.isValue laid read
      exact absurd accepted (spoiled.not_accepts value)

end ThemeSpec

/-! ## Themes -/

/-- A document that means a specification gives what the specification gives: its theme, which has
this specification, or the fault of the group that is refused.  A document that would mean it but
for one member is refused as a document. -/
theorem Theme.parse_by_meaning (spec : ThemeSpec) (document : String) :
    (IsDocument spec.IsSpelledBy document →
      parse document = (ofSpec spec).mapError .group ∧
        ∀ theme, parse document = .ok theme → theme.spec = spec) ∧
    (IsDocument spec.IsSpoiledBy document → ∃ error, parse document = .error (.json error)) := by
  constructor
  · intro meant
    have outcome : parse document = (ofSpec spec).mapError .group := by
      simp only [parse, ThemeSpec.parse_of_isDocument meant]
      cases ofSpec spec <;> rfl
    refine ⟨outcome, ?_⟩
    intro theme read
    cases built : ofSpec spec with
    | error fault =>
        rw [outcome, built] at read
        contradiction
    | ok theme' =>
        rw [outcome, built] at read
        obtain rfl := Except.ok.inj read
        obtain ⟨all, rfl⟩ := ofSpec_eq_ok_iff.mp built
        exact ThemeSpec.spec_theme all
  · intro spoiled
    obtain ⟨error, read⟩ := ThemeSpec.exists_parse_error spoiled
    exact ⟨error, by simp only [parse, read]⟩

/-- The color of plain text comes last under an escaped name and there are no groups; without this
color the document is refused. -/
theorem Theme.parse_by_meaning_escaped :
    ∃ spec : ThemeSpec, ∃ document spoiled : String,
      spec = ⟨⟨1, 2, 3⟩, ⟨10, 11, 12⟩, []⟩ ∧
      document = "\x7b\"string\":\"#0a0B0c\",\"\\u0064efault\": \"#010203\"\x7d\n" ∧
      spoiled = "\x7b\"string\":\"#0a0B0c\"\x7d" ∧
      (IsDocument spec.IsSpelledBy document ∧
        parse document = (ofSpec spec).mapError .group ∧
        ∀ theme, parse document = .ok theme → theme.spec = spec) ∧
      IsDocument spec.IsSpoiledBy spoiled ∧ ∃ error, parse spoiled = .error (.json error) := by
  have code : SpellsCode 'd'.toNat ['0', '0', '6', '4'] :=
    @SpellsCode.intro '0' '0' '6' '4' 0 0 6 4 (by decide) (by decide) (by decide) (by decide)
  have key := SpellsText.cons (.code code) (spellsText_flatMap_escapeChar "efault".toList)
  have plain : Color.IsSpelledBy ⟨1, 2, 3⟩ (writeString "#010203") :=
    ⟨"#010203", by decide, spells_writeString _⟩
  have literal : Color.IsSpelledBy ⟨10, 11, 12⟩ (writeString "#0a0B0c") :=
    ⟨"#0a0B0c", by decide, spells_writeString _⟩
  have gap : IsBlank [' '] := isBlank_singleton rfl
  have first : SpellsMember Eq ("string", writeString "#0a0B0c")
      (writeString "string" ++ ':' :: ([] ++ writeString "#0a0B0c")) :=
    spellsMember_writeString "string" isBlank_nil rfl
  have second : SpellsMember Eq ("default", writeString "#010203") _ :=
    .intro key isBlank_nil gap rfl
  have both : IsObject [("string", writeString "#0a0B0c"), ("default", writeString "#010203")] _ :=
    ⟨_, rfl, .item (.first isBlank_nil) first
      (.item (.comma isBlank_nil isBlank_nil) second (.stop isBlank_nil))⟩
  have one : IsObject [("string", writeString "#0a0B0c")] _ :=
    ⟨_, rfl, .item (.first isBlank_nil) first (.stop isBlank_nil)⟩
  have has : ThemeSpec.HasMembers ⟨⟨1, 2, 3⟩, ⟨10, 11, 12⟩, []⟩ GroupSpec.AreSpelledBy
      ([("string", writeString "#0a0B0c")] ++ ("default", writeString "#010203") :: []) :=
    ⟨_, _, [], plain, literal, .inl ⟨rfl, rfl⟩, .swap _ _ _⟩
  have meant : IsDocument (ThemeSpec.IsSpelledBy ⟨⟨1, 2, 3⟩, ⟨10, 11, 12⟩, []⟩)
      "\x7b\"string\":\"#0a0B0c\",\"\\u0064efault\": \"#010203\"\x7d\n" :=
    ⟨[], _, ['\n'], isBlank_nil, ⟨_, has, both⟩, isBlank_singleton rfl, by cbv⟩
  have spoiled : IsDocument (ThemeSpec.IsSpoiledBy ⟨⟨1, 2, 3⟩, ⟨10, 11, 12⟩, []⟩)
      "\x7b\"string\":\"#0a0B0c\"\x7d" :=
    ⟨[], _, [], isBlank_nil, .inl ⟨_, _, has, .dropped (by decide), one⟩, isBlank_nil, by cbv⟩
  exact ⟨_, _, _, rfl, rfl, rfl, ⟨meant, (parse_by_meaning _ _).1 meant⟩, spoiled,
    (parse_by_meaning _ _).2 spoiled⟩

end Highlighter
