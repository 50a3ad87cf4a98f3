import Highlighter.Proofs.Color.Codec
import Highlighter.Proofs.Json.Reading
import Highlighter.Theme.Document

/-! # Reading theme documents

A document is read by what it means.  Its objects may have their fields in any order, its strings
any spelling and its colors digits in either case, and the groups may be left out where there are
none: the specification that is read is the same. -/

set_option autoImplicit false

namespace Highlighter

open Json

variable {chars : List Char}

/-! ## What a document means -/

/-- The color as a string, with the digits in either case. -/
def Color.IsSpelledBy (color : Color) (chars : List Char) : Prop :=
  ∃ text : String, text.toList.map Char.toUpper = color.print.toList ∧
    Spells (.string text) chars

namespace GroupSpec

/-- The members of an object that says what the group is. -/
def HasMembers (group : GroupSpec) (members : List (String × List Char)) : Prop :=
  ∃ name color keywords, Spells (.string group.name) name ∧ group.color.IsSpelledBy color ∧
    Spells (.array (group.keywords.map .string)) keywords ∧
    members.Perm [("name", name), ("color", color), ("keywords", keywords)]

def IsSpelledBy (group : GroupSpec) (chars : List Char) : Prop :=
  ∃ members, group.HasMembers members ∧ IsObject members chars

/-- The member for a list of groups, which an empty list does not need. -/
def AreSpelledBy (groups : List GroupSpec) (members : List (String × List Char)) : Prop :=
  groups = [] ∧ members = [] ∨
    ∃ items chars, List.Forall₂ IsSpelledBy groups items ∧ IsArray items chars ∧
      members = [("groups", chars)]

end GroupSpec

namespace ThemeSpec

/-- The members of an object that says what the specification is, if `spells` says how it may
give the groups. -/
def HasMembers (spec : ThemeSpec)
    (spells : List GroupSpec → List (String × List Char) → Prop)
    (members : List (String × List Char)) : Prop :=
  ∃ plain literal groups, spec.plain.IsSpelledBy plain ∧ spec.literal.IsSpelledBy literal ∧
    spells spec.groups groups ∧ members.Perm (("default", plain) :: ("string", literal) :: groups)

def IsSpelledBy (spec : ThemeSpec) (chars : List Char) : Prop :=
  ∃ members, spec.HasMembers GroupSpec.AreSpelledBy members ∧ IsObject members chars

end ThemeSpec

/-! ## Colors and words -/

theorem reads_color {color : Color} (spelled : color.IsSpelledBy chars) :
    Reads readColor chars color := by
  obtain ⟨text, upper, spelled⟩ := spelled
  apply (reads_string spelled).bind
  intro rest
  simp only [Color.parse_of_toUpper upper]
  rfl

theorem Color.isSpelledBy_print {color : Color} (spelled : Spells (.string color.print) chars) :
    color.IsSpelledBy chars :=
  ⟨color.print, color.map_toUpper_print, spelled⟩

theorem reads_words {words : List String} (spelled : Spells (.array (words.map .string)) chars) :
    Reads (readList readString) chars words := by
  cases spelled with
  | array spelled =>
      apply reads_list
      apply spelled.of_map
      intro word chars spelled
      exact (reads_string spelled).isItem spelled.isValue

/-! ## Groups -/

namespace GroupSpec

variable {group : GroupSpec} {members : List (String × List Char)}

/-- The group as far as the named fields tell. -/
def known (group : GroupSpec) (names : List String) : Draft where
  name := if "name" ∈ names then some group.name else none
  color := if "color" ∈ names then some group.color else none
  keywords := if "keywords" ∈ names then some group.keywords else none

theorem HasMembers.distinct (has : group.HasMembers members) : (members.map Prod.fst).Nodup := by
  obtain ⟨name, color, keywords, _, _, _, order⟩ := has
  have names := order.map Prod.fst
  exact names.nodup_iff.mpr (by simp)

theorem HasMembers.isValue (has : group.HasMembers members) :
    ∀ member ∈ members, IsValue member.2 := by
  intro member listed
  obtain ⟨name, color, keywords, named, ⟨text, _, colored⟩, worded, order⟩ := has
  have inside := order.mem_iff.mp listed
  simp only [List.mem_cons, List.not_mem_nil, or_false] at inside
  rcases inside with rfl | rfl | rfl
  · exact named.isValue
  · exact colored.isValue
  · exact worded.isValue

theorem IsSpelledBy.isValue (spelled : group.IsSpelledBy chars) : IsValue chars := by
  obtain ⟨members, has, laid⟩ := spelled
  exact .object laid has.isValue

/-- Reading a field leaves the others as they are. -/
theorem known_cons (group : GroupSpec) (names : List String) :
    group.known ("name" :: names) = { group.known names with name := some group.name } ∧
      group.known ("color" :: names) = { group.known names with color := some group.color } ∧
      group.known ("keywords" :: names) =
        { group.known names with keywords := some group.keywords } := by
  simp [known]

theorem reads_spelled (spelled : group.IsSpelledBy chars) : Reads shape.read chars group := by
  obtain ⟨members, has, laid⟩ := spelled
  have start : group.known [] = shape.unknown := rfl
  have distinct := has.distinct
  obtain ⟨name, color, keywords, named, colored, worded, order⟩ := has
  refine Shape.reads_members start distinct ?each ?finished laid
  case each =>
    intro member listed names fresh
    obtain ⟨addsName, addsColor, addsKeywords⟩ := group.known_cons names
    have inside := order.mem_iff.mp listed
    simp only [List.mem_cons, List.not_mem_nil, or_false] at inside
    rcases inside with rfl | rfl | rfl
    · refine ⟨_, rfl, by simpa [known] using fresh, ?_⟩
      rw [addsName]
      exact (reads_string named).bind fun rest => rfl
    · refine ⟨_, rfl, by simpa [known] using fresh, ?_⟩
      rw [addsColor]
      exact (reads_color colored).bind fun rest => rfl
    · refine ⟨_, rfl, by simpa [known] using fresh, ?_⟩
      rw [addsKeywords]
      exact (reads_words worded).bind fun rest => rfl
  case finished =>
    intro listed same
    have names := order.map Prod.fst
    simp [known, same, names.mem_iff, shape]

end GroupSpec

namespace ThemeSpec

variable {spec : ThemeSpec}

theorem reads_groups {groups : List GroupSpec} {items : List (List Char)}
    (spelled : List.Forall₂ GroupSpec.IsSpelledBy groups items) (laid : IsArray items chars) :
    Reads (readList GroupSpec.shape.read) chars groups := by
  obtain ⟨inside, rfl, laid⟩ := laid
  apply reads_list
  apply laid.of_forall₂ spelled
  rintro group item _ spelled rfl
  exact (GroupSpec.reads_spelled spelled).isItem spelled.isValue

/-- The specification as far as the named fields tell. -/
def known (spec : ThemeSpec) (names : List String) : Draft where
  plain := if "default" ∈ names then some spec.plain else none
  literal := if "string" ∈ names then some spec.literal else none
  groups := if "groups" ∈ names then some spec.groups else none

theorem known_cons (spec : ThemeSpec) (names : List String) :
    spec.known ("default" :: names) = { spec.known names with plain := some spec.plain } ∧
      spec.known ("string" :: names) = { spec.known names with literal := some spec.literal } ∧
      spec.known ("groups" :: names) = { spec.known names with groups := some spec.groups } := by
  simp [known]

theorem HasMembers.distinct {members : List (String × List Char)}
    (has : spec.HasMembers GroupSpec.AreSpelledBy members) : (members.map Prod.fst).Nodup := by
  obtain ⟨plain, literal, groups, _, _, ofGroups, order⟩ := has
  have names := order.map Prod.fst
  apply names.nodup_iff.mpr
  rcases ofGroups with ⟨_, rfl⟩ | ⟨items, chars, _, _, rfl⟩
  all_goals simp

theorem reads_spelled (spelled : spec.IsSpelledBy chars) : Reads shape.read chars spec := by
  obtain ⟨members, has, laid⟩ := spelled
  have start : spec.known [] = shape.unknown := rfl
  have distinct := has.distinct
  obtain ⟨plain, literal, groups, ofPlain, ofLiteral, ofGroups, order⟩ := has
  refine Shape.reads_members start distinct ?each ?finished laid
  case each =>
    intro member listed names fresh
    obtain ⟨addsPlain, addsLiteral, addsGroups⟩ := spec.known_cons names
    have inside := order.mem_iff.mp listed
    simp only [List.mem_cons] at inside
    rcases inside with rfl | rfl | inside
    · refine ⟨_, rfl, by simpa [known] using fresh, ?_⟩
      rw [addsPlain]
      exact (reads_color ofPlain).bind fun rest => rfl
    · refine ⟨_, rfl, by simpa [known] using fresh, ?_⟩
      rw [addsLiteral]
      exact (reads_color ofLiteral).bind fun rest => rfl
    · rcases ofGroups with ⟨_, rfl⟩ | ⟨items, chars, spelled, array, rfl⟩
      · contradiction
      · rw [List.mem_singleton.mp inside] at fresh ⊢
        refine ⟨_, rfl, by simpa [known] using fresh, ?_⟩
        rw [addsGroups]
        exact (reads_groups spelled array).bind fun rest => rfl
  case finished =>
    intro listed same
    have names := order.map Prod.fst
    rcases ofGroups with ⟨none, rfl⟩ | ⟨items, chars, _, _, rfl⟩
    · simp [known, same, names.mem_iff, shape, ← none]
    · simp [known, same, names.mem_iff, shape]

theorem parse_of_isDocument {document : String} (meant : IsDocument spec.IsSpelledBy document) :
    parse document = .ok spec := by
  obtain ⟨space, chars, trail, blank, spelled, blank', laid⟩ := meant
  exact readDocument_spelled (reads_spelled spelled) blank blank' laid

end ThemeSpec

/-! ## Documents of one form -/

theorem GroupSpec.isSpelledBy_toJson {group : GroupSpec} (spelled : Spells group.toJson chars) :
    group.IsSpelledBy chars := by
  obtain ⟨members, linked, laid⟩ := exists_isObject spelled
  obtain _ | ⟨⟨name, named, rfl⟩, _ | ⟨⟨color, colored, rfl⟩, _ | ⟨⟨keywords, worded, rfl⟩,
    _ | _⟩⟩⟩ := linked
  exact ⟨_, ⟨name, color, keywords, named, Color.isSpelledBy_print colored, worded, .refl _⟩, laid⟩

theorem ThemeSpec.isSpelledBy_toJson {spec : ThemeSpec} (spelled : Spells spec.toJson chars) :
    spec.IsSpelledBy chars := by
  obtain ⟨members, linked, laid⟩ := exists_isObject spelled
  obtain _ | ⟨⟨plain, ofPlain, rfl⟩, _ | ⟨⟨literal, ofLiteral, rfl⟩, _ | ⟨⟨groups, ofGroups, rfl⟩,
    _ | _⟩⟩⟩ := linked
  obtain ⟨items, linked, array⟩ := exists_isArray ofGroups
  have listed : List.Forall₂ GroupSpec.IsSpelledBy spec.groups items :=
    (List.forall₂_map_left_iff.mp linked).imp fun group item => GroupSpec.isSpelledBy_toJson
  exact ⟨_, ⟨plain, literal, _, Color.isSpelledBy_print ofPlain, Color.isSpelledBy_print ofLiteral,
    .inr ⟨items, groups, listed, array, rfl⟩, .refl _⟩, laid⟩

/-- Any spelling of the JSON, with or without white space around it. -/
theorem ThemeSpec.parse_spelled {spec : ThemeSpec} {document : String} {space trail : List Char}
    (spelled : Spells spec.toJson chars) (blank : IsBlank space) (blank' : IsBlank trail)
    (laid : document.toList = space ++ (chars ++ trail)) : parse document = .ok spec :=
  parse_of_isDocument ⟨space, chars, trail, blank, isSpelledBy_toJson spelled, blank', laid⟩

end Highlighter
