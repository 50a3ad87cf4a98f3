import Mathlib.Data.List.Forall2
import Highlighter.Proofs.Display.Output
import Highlighter.Proofs.Run.Limit
import Highlighter.Proofs.Theme.Specification

/-! # Themes that look alike

A category is seen only through its color and its name, and whether it is plain decides which runs
are joined.  Two themes may number their groups differently and still agree in all this for every
word; then nothing that is written of a text tells them apart.  So it is with a specification whose
groups are put in another order. -/

set_option autoImplicit false

namespace Highlighter

open Entry

structure Category.LooksLike (theme theme' : Theme) (category category' : Category) : Prop where
  plain : category = .plain ↔ category' = .plain
  color : theme.palette.color category = theme'.palette.color category'
  name : theme.nameOf category = theme'.nameOf category'

structure Theme.LooksLike (theme theme' : Theme) : Prop where
  plain : theme.palette.plain = theme'.palette.plain
  literal : theme.palette.literal = theme'.palette.literal
  words : ∀ word, Category.LooksLike theme theme' (theme.lexicon.category word)
    (theme'.lexicon.category word)

structure Entry.LooksLike (theme theme' : Theme) (entry entry' : Entry) : Prop where
  range : entry.range = entry'.range
  category : Category.LooksLike theme theme' entry.category entry'.category

section Entries

variable {theme theme' : Theme} {newest newest' : List Entry} {entry entry' : Entry}

theorem Token.looksLike_entry (alike : theme.LooksLike theme') (source : String) (token : Token) :
    (token.entry source theme.lexicon).LooksLike theme theme'
      (token.entry source theme'.lexicon) := by
  refine ⟨rfl, ?_⟩
  simp only [Token.entry, Token.category]
  cases token.kind with
  | plain => exact alike.words (token.text source)
  | literal => exact ⟨by simp, alike.literal, rfl⟩

theorem looksLike_push (alike : theme.LooksLike theme')
    (lists : List.Forall₂ (Entry.LooksLike theme theme') newest newest')
    (entries : entry.LooksLike theme theme' entry') :
    List.Forall₂ (Entry.LooksLike theme theme') (push newest entry) (push newest' entry') := by
  unfold push
  cases lists with
  | nil => exact .cons ⟨entries.range, entries.category⟩ .nil
  | @cons last last' before before' head tail =>
      have both : entry.category = .plain ∧ last.category = .plain ↔
          entry'.category = .plain ∧ last'.category = .plain :=
        and_congr entries.category.plain head.category.plain
      rw [Outline.addEntry, Outline.addEntry]
      by_cases joined : entry.category = .plain ∧ last.category = .plain
      · rw [if_pos joined, if_pos (both.mp joined), head.range, entries.range]
        exact .cons ⟨rfl, Iff.rfl, alike.plain, rfl⟩ tail
      · rw [if_neg joined, if_neg (joined ∘ both.mpr)]
        exact .cons ⟨entries.range, entries.category⟩ (.cons head tail)

theorem looksLike_pushAll (alike : theme.LooksLike theme') {entries entries' : List Entry}
    (lists : List.Forall₂ (Entry.LooksLike theme theme') entries entries') :
    List.Forall₂ (Entry.LooksLike theme theme') (pushAll [] entries) (pushAll [] entries') := by
  have start : List.Forall₂ (Entry.LooksLike theme theme') [] [] := .nil
  apply List.rel_foldl ?_ start lists
  intro newest newest' lists entry entry' entries
  exact looksLike_push alike lists entries

theorem toRecord_run (alike : entry.LooksLike theme theme' entry') (source : String) :
    (entry.run source theme.palette).toRecord theme =
      (entry'.run source theme'.palette).toRecord theme' := by
  simp only [Entry.run, Run.toRecord, alike.range, alike.category.color, alike.category.name]

end Entries

theorem Theme.LooksLike.map_toRecord_highlight {theme theme' : Theme}
    (alike : theme.LooksLike theme') (text : String) :
    (theme.highlight text).map (Run.toRecord theme) =
      (theme'.highlight text).map (Run.toRecord theme') := by
  have tokens : List.Forall₂ (Entry.LooksLike theme theme') (theme.tokenEntries text)
      (theme'.tokenEntries text) := by
    rw [tokenEntries, tokenEntries, List.forall₂_map_left_iff, List.forall₂_map_right_iff,
      List.forall₂_same]
    exact fun token _ => token.looksLike_entry alike text
  have entries : List.Forall₂ (Entry.LooksLike theme theme') (theme.outline text).entries
      (theme'.outline text).entries := by
    rw [Outline.entries, Outline.entries, List.forall₂_reverse_iff, newest_outline, newest_outline]
    exact looksLike_pushAll alike tokens
  rw [highlight_eq_map_run, highlight_eq_map_run, List.map_map, List.map_map,
    ← List.forall₂_eq_eq_eq, List.forall₂_map_left_iff, List.forall₂_map_right_iff]
  exact entries.imp fun _ _ alike => toRecord_run alike text

theorem gap_congr {source : String} {palette palette' : Palette}
    (plain : palette.plain = palette'.plain) (first stop : Nat) :
    gap source palette first stop = gap source palette' first stop := by
  unfold gap Outline.bridge
  rw [plain]

theorem map_toRecord_gap (theme theme' : Theme) (source : String) (palette : Palette)
    (first stop : Nat) :
    ((gap source palette first stop).map Run.saturate).map (Run.toRecord theme) =
      ((gap source palette first stop).map Run.saturate).map (Run.toRecord theme') := by
  unfold gap
  split <;> rfl

theorem Theme.LooksLike.records {theme theme' : Theme} (alike : theme.LooksLike theme')
    (text : String) : theme.records text = theme'.records text := by
  rw [Theme.records, Theme.records, render_eq_append, render_eq_append, List.map_append,
    List.map_append, alike.map_toRecord_highlight, gap_congr alike.plain,
    map_toRecord_gap theme theme']

/-! ## Groups in another order -/

theorem Theme.IsBuiltFrom.looksLike {theme theme' : Theme} {spec spec' : ThemeSpec}
    (built : theme.IsBuiltFrom spec) (built' : theme'.IsBuiltFrom spec')
    (plain : spec.plain = spec'.plain) (literal : spec.literal = spec'.literal)
    (perm : spec.groups.Perm spec'.groups) : theme.LooksLike theme' := by
  have colors := built.specified
  have colors' := built'.specified
  constructor
  case plain =>
    rw [← colors, ← colors'] at plain
    exact plain
  case literal =>
    rw [← colors, ← colors'] at literal
    exact literal
  case words =>
    intro word
    by_cases listed : ∃ group ∈ spec.groups, word ∈ group.keywords
    · -- one group lists the word in both, at whatever place it stands
      obtain ⟨group, member, listed⟩ := listed
      obtain ⟨index, found⟩ := List.getElem?_of_mem member
      obtain ⟨index', found'⟩ := List.getElem?_of_mem (perm.mem_iff.mp member)
      obtain ⟨number, _, category, color, name⟩ := built.keyword index group word found listed
      obtain ⟨number', _, category', color', name'⟩ :=
        built'.keyword index' group word found' listed
      rw [category, category']
      exact ⟨by simp, color.trans color'.symm, name.trans name'.symm⟩
    · have unlisted : ∀ group ∈ spec.groups, word ∉ group.keywords :=
        fun group member inside => listed ⟨group, member, inside⟩
      have unlisted' : ∀ group ∈ spec'.groups, word ∉ group.keywords :=
        fun group member => unlisted group (perm.mem_iff.mpr member)
      obtain ⟨category, color⟩ := built.plain word unlisted
      obtain ⟨category', color'⟩ := built'.plain word unlisted'
      rw [category, category']
      exact ⟨Iff.rfl, by rw [color, color', plain], rfl⟩

theorem ThemeSpec.acceptsAll_of_perm {spec spec' : ThemeSpec}
    (perm : spec.groups.Perm spec'.groups) (all : LexiconDraft.empty.AcceptsAll spec.calls) :
    LexiconDraft.empty.AcceptsAll spec'.calls :=
  all.of_perm (perm.map GroupSpec.call)

/-- The order of the groups decides neither whether there is a theme nor what it writes. -/
theorem Theme.write_of_perm {plain literal : Color} {groups groups' : List GroupSpec}
    (perm : groups.Perm groups') :
    ((∃ theme, ofSpec ⟨plain, literal, groups⟩ = .ok theme) ↔
        ∃ theme, ofSpec ⟨plain, literal, groups'⟩ = .ok theme) ∧
      ∀ theme theme', ofSpec ⟨plain, literal, groups⟩ = .ok theme →
        ofSpec ⟨plain, literal, groups'⟩ = .ok theme' →
          ∀ text format sink, theme.write text format sink = theme'.write text format sink := by
  simp only [ofSpec_eq_ok_iff]
  constructor
  · constructor
    · rintro ⟨_, all, _⟩
      exact ⟨_, ThemeSpec.acceptsAll_of_perm perm all, rfl⟩
    · rintro ⟨_, all, _⟩
      exact ⟨_, ThemeSpec.acceptsAll_of_perm perm.symm all, rfl⟩
  · rintro _ _ ⟨all, rfl⟩ ⟨all', rfl⟩ text format sink
    have alike := (ThemeSpec.isBuiltFrom_theme all).looksLike (ThemeSpec.isBuiltFrom_theme all')
      rfl rfl perm
    exact write_congr (alike.records text) format sink

/-- Two groups change places and so get each the number of the other. -/
theorem Theme.write_of_perm_swapped :
    ∃ first second : GroupSpec, ∃ theme theme' : Theme,
      first = ⟨"a", ⟨1, 2, 3⟩, ["x"]⟩ ∧ second = ⟨"b", ⟨4, 5, 6⟩, ["y"]⟩ ∧
      [first, second].Perm [second, first] ∧
      ofSpec ⟨⟨0, 0, 0⟩, ⟨7, 8, 9⟩, [first, second]⟩ = .ok theme ∧
      ofSpec ⟨⟨0, 0, 0⟩, ⟨7, 8, 9⟩, [second, first]⟩ = .ok theme' ∧
      theme.lexicon.category "x" = .keyword 0 ∧ theme'.lexicon.category "x" = .keyword 1 ∧
      ∀ text format sink, theme.write text format sink = theme'.write text format sink := by
  let first : GroupSpec := ⟨"a", ⟨1, 2, 3⟩, ["x"]⟩
  let second : GroupSpec := ⟨"b", ⟨4, 5, 6⟩, ["y"]⟩
  let spec : ThemeSpec := ⟨⟨0, 0, 0⟩, ⟨7, 8, 9⟩, [first, second]⟩
  let spec' : ThemeSpec := ⟨⟨0, 0, 0⟩, ⟨7, 8, 9⟩, [second, first]⟩
  have perm : [first, second].Perm [second, first] := .swap second first []
  have fits : LexiconDraft.empty.Fits spec.calls := by
    refine ⟨?_, by decide, by decide, by decide, ?_, by decide⟩
    · simp [LexiconDraft.empty]
    · simp [LexiconDraft.empty, Lexicon.empty]
  have all := fits.acceptsAll
  have all' : LexiconDraft.empty.AcceptsAll spec'.calls := ThemeSpec.acceptsAll_of_perm perm all
  have built : ofSpec spec = .ok spec.theme := ofSpec_eq_ok_iff.mpr ⟨all, rfl⟩
  have built' : ofSpec spec' = .ok spec'.theme := ofSpec_eq_ok_iff.mpr ⟨all', rfl⟩
  obtain ⟨number, zero, category, _⟩ :=
    (ThemeSpec.isBuiltFrom_theme all).keyword 0 first "x" rfl List.mem_cons_self
  obtain ⟨number', one, category', _⟩ :=
    (ThemeSpec.isBuiltFrom_theme all').keyword 1 first "x" rfl List.mem_cons_self
  obtain rfl : number = 0 := Fin.ext zero
  obtain rfl : number' = 1 := Fin.ext one
  exact ⟨first, second, _, _, rfl, rfl, perm, built, built', category, category',
    (write_of_perm perm).2 _ _ built built'⟩

end Highlighter
