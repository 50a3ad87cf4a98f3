import Highlighter.Proofs.Run.Outline
import Highlighter.Proofs.Token.Tokenization
import Highlighter.Run.Highlight

/-! # What the runs of a text are

The runs are described by the tokens: those that are not plain, one by one and untouched, and
between them the rest of the text in pieces as long as they can be.  The description fits one list
of runs for each text and theme. -/

set_option autoImplicit false

namespace Highlighter

open Text

def Run.entry (run : Run) : Entry := ⟨run.range, run.category⟩

/-- The entries of the tokens of `text` before any of them are joined. -/
def Theme.tokenEntries (theme : Theme) (text : String) : List Entry :=
  (tokenize text).map (Token.entry text theme.lexicon)

def Theme.outline (theme : Theme) (text : String) : Outline :=
  (Outline.start text theme.lexicon).addAll (tokenize text)

structure IsHighlighting (theme : Theme) (text : String) (runs : List Run) : Prop where
  tiles : Tiles 0 text.utf8ByteSize (runs.map Run.range)
  texts : ∀ run ∈ runs, run.text = run.range.text text
  /-- The runs that are not plain are the tokens that are not plain. -/
  marked : Entry.marked (runs.map Run.entry) = Entry.marked (theme.tokenEntries text)
  apart : Entry.Apart (runs.map Run.entry)
  colors : ∀ run ∈ runs, run.color = theme.palette.color run.category

variable {theme : Theme} {text : String} {runs : List Run}

theorem map_range_tokenEntries (theme : Theme) (text : String) :
    (theme.tokenEntries text).map Entry.range = (tokenize text).map Token.range := by
  rw [Theme.tokenEntries, List.map_map]
  rfl

theorem Theme.newest_outline (theme : Theme) (text : String) :
    (theme.outline text).newest = Entry.pushAll [] (theme.tokenEntries text) :=
  Outline.newest_addAll _ _

theorem joins_outline (theme : Theme) (text : String) :
    Joins (theme.tokenEntries text) (theme.outline text).newest text.utf8ByteSize := by
  have tiles := (isTokenization_tokenize text).tiles
  rw [← map_range_tokenEntries theme] at tiles
  rw [Theme.newest_outline]
  exact joins_pushAll tiles

theorem isBoundary_outline (theme : Theme) (text : String) :
    ∀ entry ∈ (theme.outline text).entries,
      IsBoundary text entry.range.first ∧ IsBoundary text entry.range.stop := by
  have gathers := Gathers.nil.pushAll (theme.tokenEntries text)
  intro entry member
  rw [Outline.entries, List.mem_reverse, Theme.newest_outline] at member
  apply gathers.isBoundary ?_ entry member
  intro token added
  obtain ⟨original, streamed, rfl⟩ := List.mem_map.mp added
  exact (isTokenization_tokenize text).boundaries original streamed

/-- Each run is one entry of the outline; no bytes are left to be bridged. -/
theorem highlight_eq_map_run (theme : Theme) (text : String) :
    theme.highlight text = (theme.outline text).entries.map (Entry.run text theme.palette) := by
  have source : (theme.outline text).source = text := (Outline.addAll_fixed _ _).1
  have tiles := (joins_outline theme text).tiles
  have runs := runs_of_tiles (theme.outline text) theme.palette (by rw [source]; exact tiles)
  rw [source] at runs
  exact runs

theorem map_entry_highlight (theme : Theme) (text : String) :
    (theme.highlight text).map Run.entry = (theme.outline text).entries := by
  rw [highlight_eq_map_run, List.map_map]
  exact List.map_id _

theorem map_range_entry (runs : List Run) :
    (runs.map Run.entry).map Entry.range = runs.map Run.range := by
  rw [List.map_map]
  rfl

theorem isHighlighting_highlight (theme : Theme) (text : String) :
    IsHighlighting theme text (theme.highlight text) := by
  have joins := joins_outline theme text
  have entries := map_entry_highlight theme text
  refine ⟨?_, ?_, ?_, ?_, ?_⟩
  · rw [← map_range_entry, entries]
    exact joins.tiles
  · intro run member
    rw [highlight_eq_map_run] at member
    obtain ⟨entry, _, rfl⟩ := List.mem_map.mp member
    rfl
  · rw [entries]
    exact joins.marked
  · rw [entries]
    exact joins.apart
  · intro run member
    rw [highlight_eq_map_run] at member
    obtain ⟨entry, _, rfl⟩ := List.mem_map.mp member
    rfl

theorem IsHighlighting.map_run_entry (highlighting : IsHighlighting theme text runs) :
    (runs.map Run.entry).map (Entry.run text theme.palette) = runs := by
  rw [List.map_map]
  refine (List.map_congr_left ?_).trans (List.map_id _)
  rintro ⟨shown, range, category, color⟩ member
  obtain rfl : shown = range.text text := highlighting.texts _ member
  obtain rfl : color = theme.palette.color category := highlighting.colors _ member
  rfl

theorem IsHighlighting.eq_highlight (highlighting : IsHighlighting theme text runs) :
    runs = theme.highlight text := by
  have joins := joins_outline theme text
  have tiles := highlighting.tiles
  rw [← map_range_entry] at tiles
  have entries : runs.map Run.entry = (theme.outline text).entries :=
    entries_unique tiles joins.tiles highlighting.apart joins.apart
      (highlighting.marked.trans joins.marked.symm)
  rw [← highlighting.map_run_entry, entries, highlight_eq_map_run]

/-- Runs of a category that is not plain lie where tokens of it lie. -/
theorem exists_run_iff {category : Category} (notPlain : category ≠ .plain)
    (place : ByteRange → Prop) :
    (∃ run ∈ theme.highlight text, run.category = category ∧ place run.range) ↔
      ∃ token ∈ tokenize text,
        token.category text theme.lexicon = category ∧ place token.range := by
  have same := (isHighlighting_highlight theme text).marked
  have both : ∀ range : ByteRange,
      (⟨range, category⟩ : Entry) ∈ (theme.highlight text).map Run.entry ↔
        ⟨range, category⟩ ∈ theme.tokenEntries text := by
    intro range
    have isMarked : (⟨range, category⟩ : Entry).isPlain = false := by simpa [Entry.isPlain]
    have member := congrArg (fun entries => (⟨range, category⟩ : Entry) ∈ entries) same
    simpa [Entry.marked, isMarked] using member
  constructor
  · rintro ⟨run, member, rfl, here⟩
    obtain ⟨token, known, entry⟩ :=
      List.mem_map.mp ((both run.range).mp (List.mem_map_of_mem member))
    obtain ⟨range, category⟩ := Entry.mk.inj entry
    exact ⟨token, known, category, range ▸ here⟩
  · rintro ⟨token, member, rfl, here⟩
    obtain ⟨run, known, entry⟩ :=
      List.mem_map.mp ((both token.range).mpr (List.mem_map_of_mem member))
    obtain ⟨range, category⟩ := Entry.mk.inj entry
    exact ⟨run, known, category, range ▸ here⟩

theorem join_highlight (theme : Theme) (text : String) :
    String.join ((theme.highlight text).map Run.text) = text := by
  have highlighting := isHighlighting_highlight theme text
  apply join_of_tiles highlighting.tiles ?_ highlighting.texts
  intro run member
  rw [highlight_eq_map_run] at member
  obtain ⟨entry, known, rfl⟩ := List.mem_map.mp member
  exact (isBoundary_outline theme text entry known).2

/-- The description fits the runs that a theme gives and no other list.  They show the whole text,
and each is one entry of the outline: no gap is left between two entries. -/
theorem highlight_spec (theme : Theme) (text : String) :
    (∀ runs, IsHighlighting theme text runs ↔ runs = theme.highlight text) ∧
      String.join ((theme.highlight text).map Run.text) = text ∧
      (theme.highlight text).map Run.entry = (theme.outline text).entries := by
  refine ⟨?_, join_highlight theme text, map_entry_highlight theme text⟩
  intro runs
  constructor
  · exact IsHighlighting.eq_highlight
  · rintro rfl
    exact isHighlighting_highlight theme text

end Highlighter
