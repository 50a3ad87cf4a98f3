import Mathlib.Data.List.Nodup
import Highlighter.Proofs.Run.WholeWords
import Highlighter.Proofs.Theme.Document
import Highlighter.Proofs.Theme.Specification

/-! # Themes from their own documents

A theme is written down as its specification.  The groups in it are those of the lexicon, so the
draft that reads them accepts each and ends with the same lexicon.  The palette may come back
different, as a group without a color of its own is given that of plain text, but no category that
the lexicon knows changes its color. -/

set_option autoImplicit false

namespace Highlighter

open Json

/-! ## The same theme again -/

theorem Theme.map_group_spec {theme : Theme} (fits : theme.lexicon.groupCount ≤ groupLimit) :
    theme.spec.groups.map GroupSpec.group = theme.lexicon.groups.toList := by
  have entry : ∀ group : GroupId, (theme.groupSpec group).group =
      (theme.lexicon.group? group).getD ⟨"", []⟩ := by
    intro group
    cases found : theme.lexicon.group? group with
    | none => simp [GroupSpec.group, groupSpec, Lexicon.name?, Lexicon.words, found]
    | some known => simp [GroupSpec.group, groupSpec, Lexicon.name?, Lexicon.words, found]
  have groups := congrArg (List.map fun found => found.getD ⟨"", []⟩)
    (Lexicon.map_group?_groupIds fits)
  rw [List.map_map, List.map_map] at groups
  rw [spec, List.map_map]
  calc theme.lexicon.groupIds.map (GroupSpec.group ∘ theme.groupSpec)
    _ = theme.lexicon.groupIds.map fun group => (theme.lexicon.group? group).getD ⟨"", []⟩ :=
      List.map_congr_left fun group _ => entry group
    _ = theme.lexicon.groups.toList.map fun found => found := groups
    _ = theme.lexicon.groups.toList := List.map_id _

/-- The palette that is read from the document of a theme. -/
def Theme.reloadedPalette (theme : Theme) : Palette :=
  ⟨theme.palette.plain, theme.palette.literal, (theme.spec.groups.map GroupSpec.color).toArray⟩

theorem Theme.ofSpec_spec {theme : Theme} {draft : LexiconDraft} (replayed : draft.IsReplayed)
    (same : draft.lexicon = theme.lexicon) :
    ofSpec theme.spec = .ok ⟨theme.lexicon, theme.reloadedPalette⟩ := by
  have fits := replayed.fits
  have replay := replayed.replay
  rw [same] at fits replay
  rw [← map_group_spec fits] at replay
  rw [ofSpec_eq, replay, ← same]
  rfl

/-- A group of the lexicon has a color of its own now, and it is the one it had before. -/
theorem Theme.color_reloadedPalette {theme : Theme} {group : GroupId}
    (fits : theme.lexicon.groupCount ≤ groupLimit)
    (inside : group.val < theme.lexicon.groupCount) :
    theme.reloadedPalette.color (.keyword group) = theme.palette.color (.keyword group) := by
  have own : theme.reloadedPalette.own? group = some (theme.palette.color (.keyword group)) := by
    simp [reloadedPalette, Palette.own?, spec, groupSpec, Lexicon.getElem?_groupIds fits inside]
  rw [Palette.color, own]
  rfl

theorem Theme.spec_reloaded {theme : Theme} (fits : theme.lexicon.groupCount ≤ groupLimit) :
    Theme.spec ⟨theme.lexicon, theme.reloadedPalette⟩ = theme.spec := by
  have groups : ∀ group ∈ theme.lexicon.groupIds,
      Theme.groupSpec ⟨theme.lexicon, theme.reloadedPalette⟩ group = theme.groupSpec group := by
    intro group member
    have inside := Lexicon.lt_of_mem_groupIds fits member
    simp only [groupSpec, color_reloadedPalette fits inside]
  simp only [spec, List.map_congr_left groups]
  rfl

/-- Runs change with the palette only where a category of theirs changes its color. -/
theorem Theme.highlight_congr {lexicon : Lexicon} {palette palette' : Palette} {text : String}
    (colors : ∀ run ∈ Theme.highlight ⟨lexicon, palette⟩ text,
      palette'.color run.category = palette.color run.category) :
    Theme.highlight ⟨lexicon, palette'⟩ text = Theme.highlight ⟨lexicon, palette⟩ text := by
  obtain ⟨tiles, texts, marked, apart, own⟩ := isHighlighting_highlight ⟨lexicon, palette⟩ text
  have again : IsHighlighting ⟨lexicon, palette'⟩ text (Theme.highlight ⟨lexicon, palette⟩ text) :=
    ⟨tiles, texts, marked, apart, fun run member => (own run member).trans (colors run member).symm⟩
  exact again.eq_highlight.symm

theorem Theme.lt_groupCount_of_mem_highlight {theme : Theme} {text : String} {run : Run}
    {group : GroupId} (indexed : theme.lexicon.IsIndexed) (member : run ∈ theme.highlight text)
    (keyword : run.category = .keyword group) : group.val < theme.lexicon.groupCount := by
  obtain ⟨word, listed⟩ := exists_word_of_mem_highlight indexed member keyword
  exact Lexicon.lt_groupCount_of_mem_words listed

theorem Theme.highlight_reloaded {theme : Theme} (fits : theme.lexicon.groupCount ≤ groupLimit)
    (indexed : theme.lexicon.IsIndexed) (text : String) :
    Theme.highlight ⟨theme.lexicon, theme.reloadedPalette⟩ text = theme.highlight text := by
  apply highlight_congr
  intro run member
  cases category : run.category with
  | plain => rfl
  | literal => rfl
  | keyword group =>
      exact color_reloadedPalette fits (lt_groupCount_of_mem_highlight indexed member category)

/-! ## Documents -/

/-- A theme is read again from each of its documents: not always as the same palette, but with the
same specification, the same runs for every text and the same name for every category. -/
theorem Theme.exists_parse_document {theme : Theme} (made : theme.lexicon.IsMade)
    {document : String} (written : document ∈ theme.spec.toJson.documents) :
    ∃ again, parse document = .ok again ∧ again.spec = theme.spec ∧
      (∀ text, again.highlight text = theme.highlight text) ∧
      ∀ category, again.nameOf category = theme.nameOf category := by
  obtain ⟨calls, same⟩ := made.exists_calls
  have replayed := LexiconDraft.isReplayed_afterGroups calls LexiconDraft.isReplayed_empty
  have sound := Lexicon.isSound_ofCalls calls
  have fits : theme.lexicon.groupCount ≤ groupLimit := by
    rw [same]
    exact replayed.fits
  rw [← same] at sound
  obtain ⟨chars, trail, spelled, blank, laid⟩ := Json.exists_spells_of_mem_documents written
  have read : ThemeSpec.parse document = .ok theme.spec :=
    ThemeSpec.parse_spelled spelled isBlank_nil blank laid
  refine ⟨⟨theme.lexicon, theme.reloadedPalette⟩, ?_, spec_reloaded fits,
    highlight_reloaded fits sound.indexed, fun category => rfl⟩
  simp only [parse, read, ofSpec_spec replayed same.symm]

/-- The name of the group is escaped, and the palette has no color for it. -/
theorem Theme.exists_parse_document_escaped :
    ∃ theme : Theme, ∃ document : String,
      theme = ⟨.ofCalls [("\"\n\x01😀", ["let"])], ⟨⟨1, 2, 3⟩, ⟨4, 5, 6⟩, #[]⟩⟩ ∧
      document = "\x7b\"default\":\"#010203\",\"string\":\"#040506\",\"groups\":[" ++
        "\x7b\"name\":\"\\\"\\n\\u0001😀\",\"color\":\"#010203\"," ++
        "\"keywords\":[\"let\"]\x7d]\x7d\n" ∧
      theme.lexicon.IsMade ∧ document ∈ theme.spec.toJson.documents ∧
      ∃ again, parse document = .ok again ∧ again.spec = theme.spec ∧
        (∀ text, again.highlight text = theme.highlight text) ∧
        ∀ category, again.nameOf category = theme.nameOf category := by
  have fits : LexiconDraft.empty.Fits [("\"\n\x01😀", ["let"])] := by
    refine ⟨?_, by decide, by decide, by decide, ?_, by decide⟩
    · simp [LexiconDraft.empty]
    · simp [LexiconDraft.empty, Lexicon.empty]
  have lexicon : Lexicon.ofCalls [("\"\n\x01😀", ["let"])] =
      Lexicon.empty.append "\"\n\x01😀" ["let"] := fits.afterGroups
  have printed : (spec ⟨.ofCalls [("\"\n\x01😀", ["let"])],
      ⟨⟨1, 2, 3⟩, ⟨4, 5, 6⟩, #[]⟩⟩).toJson.compact ++ "\n" =
      "\x7b\"default\":\"#010203\",\"string\":\"#040506\",\"groups\":[" ++
        "\x7b\"name\":\"\\\"\\n\\u0001😀\",\"color\":\"#010203\"," ++
        "\"keywords\":[\"let\"]\x7d]\x7d\n" := by
    rw [lexicon]
    cbv
  have made : (Lexicon.ofCalls [("\"\n\x01😀", ["let"])]).IsMade := .ofCalls _
  refine ⟨_, _, rfl, printed, made, ?_, exists_parse_document made ?_⟩
  all_goals exact List.mem_cons_of_mem _ List.mem_cons_self

end Highlighter
