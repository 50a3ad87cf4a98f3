import Mathlib.Data.List.Nodup
import Highlighter.Proofs.Lexicon.Admission
import Highlighter.Theme.Basic

/-! # Themes and their specifications

The lexicon and the palette of a theme are built side by side, one group after the other.  If all
groups are taken, the theme has exactly the specification that it was built from, and shows the
words of a group under its name and in its color; otherwise the fault is that of the first group
that is refused. -/

set_option autoImplicit false

namespace Highlighter

/-! ## Building -/

def GroupSpec.group (spec : GroupSpec) : WordGroup := ⟨spec.name, spec.keywords⟩

/-- The palette follows the lexicon, one color for each group. -/
theorem Theme.Draft.foldlM_add (specs : List GroupSpec) : ∀ draft : Theme.Draft,
    specs.foldlM add draft =
      ((specs.map GroupSpec.group).foldlM LexiconDraft.take draft.lexicon).map fun lexicon =>
        ⟨lexicon, (specs.map GroupSpec.color).foldl Palette.addGroup draft.palette⟩ := by
  induction specs with
  | nil =>
      intro draft
      rfl
  | cons spec rest ih =>
      intro draft
      simp only [List.map_cons, List.foldlM_cons, List.foldl_cons]
      cases result : LexiconDraft.addGroup spec.name spec.keywords draft.lexicon with
      | error fault last =>
          have taken : draft.lexicon.take spec.group = .error fault := by
            simp [LexiconDraft.take, GroupSpec.group, result]
          have added : draft.add spec = .error fault := by
            simp [add, result]
          rw [taken, added]
          rfl
      | ok group next =>
          have taken : draft.lexicon.take spec.group = .ok next := by
            simp [LexiconDraft.take, GroupSpec.group, result]
          have added : draft.add spec = .ok ⟨next, draft.palette.addGroup spec.color⟩ := by
            simp [add, result]
          rw [taken, added]
          exact ih _

theorem Palette.foldl_addGroup (colors : List Color) : ∀ palette : Palette,
    colors.foldl addGroup palette =
      { palette with groups := palette.groups ++ colors.toArray } := by
  induction colors with
  | nil =>
      intro palette
      simp
  | cons color rest ih =>
      intro palette
      rw [List.foldl_cons, ih]
      simp [addGroup]

def GroupSpec.call (spec : GroupSpec) : String × List String := (spec.name, spec.keywords)

namespace ThemeSpec

def calls (spec : ThemeSpec) : List (String × List String) := spec.groups.map GroupSpec.call

theorem map_group_call (specs : List GroupSpec) :
    (specs.map GroupSpec.group).map WordGroup.call = specs.map GroupSpec.call := by
  rw [List.map_map]
  rfl

/-- A group of the specification is refused with `fault` after all groups before it were taken. -/
def IsRefused (spec : ThemeSpec) (fault : GroupFault) : Prop :=
  ∃ before group after, spec.groups = before ++ group :: after ∧
    LexiconDraft.empty.AcceptsAll (before.map GroupSpec.call) ∧
    ∃ last, LexiconDraft.addGroup group.name group.keywords
      (LexiconDraft.empty.afterGroups (before.map GroupSpec.call)) = .error fault last

/-- The lexicon that the groups lead to, with a color for each of them. -/
def theme (spec : ThemeSpec) : Theme where
  lexicon := .ofCalls spec.calls
  palette := ⟨spec.plain, spec.literal, (spec.groups.map GroupSpec.color).toArray⟩

end ThemeSpec

namespace Theme

variable {spec : ThemeSpec} {theme : Theme} {fault : GroupFault}

theorem ofSpec_eq (spec : ThemeSpec) : ofSpec spec =
    ((spec.groups.map GroupSpec.group).foldlM LexiconDraft.take .empty).map fun draft =>
      ⟨draft.lexicon, spec.theme.palette⟩ := by
  rw [ofSpec, Draft.foldlM_add, Palette.foldl_addGroup]
  cases (spec.groups.map GroupSpec.group).foldlM LexiconDraft.take .empty with
  | error fault => rfl
  | ok draft => simp [ThemeSpec.theme, Except.map]

theorem ofSpec_eq_ok_iff :
    ofSpec spec = .ok theme ↔ LexiconDraft.empty.AcceptsAll spec.calls ∧ theme = spec.theme := by
  rw [ofSpec_eq]
  constructor
  · intro built
    cases replay : (spec.groups.map GroupSpec.group).foldlM LexiconDraft.take .empty with
    | error fault => simp [replay, Except.map] at built
    | ok draft =>
        obtain ⟨all, same⟩ := LexiconDraft.foldlM_take_eq_ok_iff.mp replay
        rw [ThemeSpec.map_group_call] at all same
        rw [replay] at built
        refine ⟨all, ?_⟩
        rw [← Except.ok.inj built, ← same]
        rfl
  · rintro ⟨all, rfl⟩
    rw [ThemeSpec.calls, ← ThemeSpec.map_group_call] at all
    rw [LexiconDraft.foldlM_take_eq_ok_iff.mpr ⟨all, rfl⟩, ThemeSpec.map_group_call]
    rfl

theorem ofSpec_eq_error_iff : ofSpec spec = .error fault ↔ spec.IsRefused fault := by
  have stopped : ofSpec spec = .error fault ↔
      (spec.groups.map GroupSpec.group).foldlM LexiconDraft.take .empty = .error fault := by
    rw [ofSpec_eq]
    cases (spec.groups.map GroupSpec.group).foldlM LexiconDraft.take .empty <;> simp [Except.map]
  rw [stopped, LexiconDraft.foldlM_take_eq_error_iff]
  constructor
  · rintro ⟨before, group, after, split, all, fails⟩
    obtain ⟨before, others, whole, rfl, later⟩ := List.map_eq_append_iff.mp split
    obtain ⟨group, after, rfl, rfl, rfl⟩ := List.map_eq_cons_iff.mp later
    rw [ThemeSpec.map_group_call] at all fails
    exact ⟨before, group, after, whole, all, fails⟩
  · rintro ⟨before, group, after, split, all, fails⟩
    rw [← ThemeSpec.map_group_call] at all fails
    exact ⟨_, group.group, after.map GroupSpec.group, by rw [split]; simp, all, fails⟩

/-! ## What is shown of a specification -/

/-- The groups are numbered by their places. -/
structure IsBuiltFrom (theme : Theme) (spec : ThemeSpec) : Prop where
  specified : theme.spec = spec
  keyword : ∀ index group word, spec.groups[index]? = some group → word ∈ group.keywords →
    ∃ number : GroupId, number.val = index ∧ theme.lexicon.category word = .keyword number ∧
      theme.palette.color (.keyword number) = group.color ∧
      theme.nameOf (.keyword number) = group.name
  plain : ∀ word, (∀ group ∈ spec.groups, word ∉ group.keywords) →
    theme.lexicon.category word = .plain ∧ theme.palette.color .plain = spec.plain

end Theme

namespace ThemeSpec

variable {spec : ThemeSpec} {group : GroupSpec} {number : GroupId}

theorem group?_theme (all : LexiconDraft.empty.AcceptsAll spec.calls) (number : GroupId) :
    spec.theme.lexicon.group? number = spec.groups[number.val]?.map GroupSpec.group := by
  have groups := LexiconDraft.map_accepted spec.calls .empty
  rw [all] at groups
  have listed : spec.theme.lexicon.groups.toList = spec.groups.map GroupSpec.group := by
    rw [theme, Lexicon.ofCalls, groups, calls, List.map_map]
    rfl
  rw [Lexicon.group?, ← Array.getElem?_toList, listed, List.getElem?_map]

theorem groupCount_theme (all : LexiconDraft.empty.AcceptsAll spec.calls) :
    spec.theme.lexicon.groupCount = spec.groups.length := by
  have count := LexiconDraft.groupCount_afterGroups spec.calls
  rw [all, calls, List.length_map] at count
  exact count

theorem groupSpec_theme (all : LexiconDraft.empty.AcceptsAll spec.calls)
    (found : spec.groups[number.val]? = some group) : spec.theme.groupSpec number = group := by
  have entry := group?_theme all number
  have own : spec.theme.palette.own? number = some group.color := by
    simp [theme, Palette.own?, found]
  rw [found] at entry
  simp only [Theme.groupSpec, Lexicon.name?, Lexicon.words, entry, Palette.color, own]
  rfl

theorem spec_theme (all : LexiconDraft.empty.AcceptsAll spec.calls) : spec.theme.spec = spec := by
  have fits := (LexiconDraft.isKept_afterGroups spec.calls).fits
  have numbers : spec.theme.lexicon.groupIds.map Fin.val = _ := Lexicon.map_val_groupIds fits
  have groups : spec.theme.lexicon.groupIds.map spec.theme.groupSpec = spec.groups := by
    apply List.ext_getElem?
    intro index
    have place := congrArg (·[index]?) numbers
    simp only [List.getElem?_map, groupCount_theme all] at place ⊢
    cases here : spec.theme.lexicon.groupIds[index]? with
    | none =>
        rw [here] at place
        have past := List.getElem?_eq_none_iff.mp place.symm
        rw [List.length_range] at past
        exact (List.getElem?_eq_none past).symm
    | some number =>
        rw [here] at place
        obtain ⟨inside, same⟩ := List.getElem?_eq_some_iff.mp place.symm
        rw [List.getElem_range] at same
        rw [List.length_range] at inside
        subst same
        have found := List.getElem?_eq_getElem inside
        rw [Option.map_some, groupSpec_theme all found, found]
  rw [Theme.spec, groups]
  rfl

theorem isBuiltFrom_theme (all : LexiconDraft.empty.AcceptsAll spec.calls) :
    spec.theme.IsBuiltFrom spec := by
  have coherent := (LexiconDraft.isKept_afterGroups spec.calls).isCoherent
  have words : ∀ (number : GroupId), spec.theme.lexicon.words number =
      (spec.groups[number.val]?.map GroupSpec.keywords).getD [] := by
    intro number
    rw [Lexicon.words, group?_theme all]
    cases spec.groups[number.val]? <;> rfl
  constructor
  case specified => exact spec_theme all
  case keyword =>
    intro index group word found listed
    have inRange : index < groupLimit := by
      have inside := (List.getElem?_eq_some_iff.mp found).1
      rw [← groupCount_theme all] at inside
      exact Nat.lt_of_lt_of_le inside coherent.groupCount
    have same : spec.theme.groupSpec ⟨index, inRange⟩ = group := groupSpec_theme all found
    have entry := group?_theme all ⟨index, inRange⟩
    rw [found] at entry
    refine ⟨⟨index, inRange⟩, rfl, ?_, ?_, ?_⟩
    · apply (coherent.category word _).mpr
      change word ∈ spec.theme.lexicon.words _
      rw [words, found]
      exact listed
    · rw [← same]
      rfl
    · rw [Theme.nameOf, Lexicon.name?, entry]
      rfl
  case plain =>
    intro word unlisted
    refine ⟨(coherent.unlisted word).mpr ?_, rfl⟩
    intro number
    change word ∉ spec.theme.lexicon.words number
    rw [words]
    cases found : spec.groups[number.val]? with
    | none => simp
    | some group => exact unlisted group (List.mem_of_getElem? found)

end ThemeSpec

/-- A specification is refused for its first group that is, and otherwise gives a theme that has
this specification and shows every word as it says. -/
theorem Theme.ofSpec_cases (spec : ThemeSpec) :
    (∀ fault, ofSpec spec = .error fault ↔ spec.IsRefused fault) ∧
      ∀ theme, ofSpec spec = .ok theme → theme.IsBuiltFrom spec := by
  refine ⟨fun fault => ofSpec_eq_error_iff, ?_⟩
  intro theme built
  obtain ⟨all, rfl⟩ := ofSpec_eq_ok_iff.mp built
  exact ThemeSpec.isBuiltFrom_theme all

example : Theme.ofSpec ⟨default, default, [⟨"a", default, ["x"]⟩, ⟨"b", default, ["y", "x", ""]⟩,
    ⟨"a", default, []⟩]⟩ = .error (.wordTaken "x" "a" "b") := by cbv

end Highlighter
