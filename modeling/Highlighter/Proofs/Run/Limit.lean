import Highlighter.Proofs.Run.Highlighting
import Highlighter.Proofs.Token.Limit

/-! # Runs of a long text

The runs of a text that fits are those that it would have if offsets had no limit.  Of a longer text
the part that is left by the cut has its own runs, and one plain run shows the rest, so that even
then nothing of the text is lost. -/

set_option autoImplicit false

namespace Highlighter

open Text

variable {theme : Theme} {text : String} {run : Run}

/-! ## Offsets within the limit -/

theorem ByteRange.saturate_eq_self {range : ByteRange} (nonempty : range.first ≤ range.last)
    (within : range.last < UInt32.size) : range.saturate = range := by
  have last : range.last ≤ UInt32.size - 1 := Nat.le_sub_one_of_lt within
  rw [saturate, Nat.min_eq_left (Nat.le_trans nonempty last), Nat.min_eq_left last]

theorem Run.saturate_eq_self (nonempty : run.range.first ≤ run.range.last)
    (within : run.range.last < UInt32.size) : run.saturate = run := by
  rw [saturate, ByteRange.saturate_eq_self nonempty within]

/-! ## The part that is left -/

namespace Theme

theorem entries_scan (theme : Theme) (text : String) :
    ((Outline.start text theme.lexicon).addAll (scan text)).entries =
      (theme.outline (clamp text)).entries := by
  have same : (scan text).map (Token.entry text theme.lexicon) =
      theme.tokenEntries (clamp text) := by
    apply List.map_congr_left
    intro token member
    simp only [Token.entry, Token.category, text_of_mem_scan member]
  rw [Outline.entries, Outline.entries, Outline.newest_addAll, newest_outline]
  simp only [Outline.start]
  rw [same]

theorem saturate_run_entry {entry : Entry} (member : entry ∈ (theme.outline (clamp text)).entries) :
    (entry.run text theme.palette).saturate = entry.run (clamp text) theme.palette := by
  have joins := joins_outline theme (clamp text)
  have nonempty : entry.range.first ≤ entry.range.last :=
    (tiles_iff_successive.mp joins.tiles).le_of_mem _ (List.mem_map_of_mem member)
  obtain ⟨first, stop⟩ := isBoundary_outline theme (clamp text) entry member
  have within : entry.range.last < UInt32.size :=
    Nat.lt_of_lt_of_le stop.le (Nat.le_of_lt (fits_clamp text))
  obtain ⟨rest, whole⟩ := exists_clamp_append text
  have shown := ByteRange.text_append first stop nonempty rest
  rw [← whole] at shown
  have same : entry.run text theme.palette = entry.run (clamp text) theme.palette := by
    unfold Entry.run
    rw [shown]
  rw [same, Run.saturate_eq_self nonempty within]

/-- The runs of the part that is left, and one more if anything is cut off. -/
theorem render_eq_append (theme : Theme) (text : String) :
    theme.render text = theme.highlight (clamp text) ++
      (gap text theme.palette (clamp text).utf8ByteSize text.utf8ByteSize).map Run.saturate := by
  have source : ((Outline.start text theme.lexicon).addAll (scan text)).source = text :=
    (Outline.addAll_fixed _ _).1
  have tiles : Tiles 0 (clamp text).utf8ByteSize
      ((theme.outline (clamp text)).entries.map Entry.range) :=
    (joins_outline theme (clamp text)).tiles
  rw [render, Outline.finish, Outline.runs_eq_spread, source, entries_scan, spread_of_tiles tiles,
    List.map_append, List.map_map, highlight_eq_map_run]
  congr 1
  apply List.map_congr_left
  intro entry member
  exact saturate_run_entry member

theorem render_eq_highlight (theme : Theme) (fits : Fits text) :
    theme.render text = theme.highlight text := by
  rw [render_eq_append, clamp_eq_self fits, gap_self, List.map_nil, List.append_nil]

theorem mem_highlight_or_plain_of_mem_render (member : run ∈ theme.render text) :
    run ∈ theme.highlight (clamp text) ∨ run.category = .plain := by
  rw [render_eq_append, List.mem_append] at member
  rcases member with early | tail
  · exact .inl early
  · obtain ⟨bridge, shown, rfl⟩ := List.mem_map.mp tail
    rw [(mem_gap shown).2]
    exact .inr rfl

/-- What is cut off is shown. -/
theorem exists_plain_of_long (theme : Theme) (long : ¬ Fits text) :
    ∃ run ∈ theme.render text, run.category = .plain := by
  have more : (clamp text).utf8ByteSize < text.utf8ByteSize :=
    Nat.lt_of_lt_of_le (fits_clamp text) (Nat.le_of_not_lt long)
  rw [render_eq_append, gap, if_pos more, List.map_singleton]
  exact ⟨_, List.mem_append_right _ (List.mem_singleton_self _), rfl⟩

end Theme

/-! ## The whole text -/

theorem join_map_text_saturate (runs : List Run) :
    String.join ((runs.map Run.saturate).map Run.text) = String.join (runs.map Run.text) := by
  rw [List.map_map]
  rfl

theorem join_gap (before after : String) (palette : Palette) :
    String.join ((gap (before ++ after) palette before.utf8ByteSize
      (before ++ after).utf8ByteSize).map Run.text) = after := by
  have size : (before ++ after).utf8ByteSize = before.utf8ByteSize + after.utf8ByteSize :=
    String.utf8ByteSize_append
  apply String.toList_injective
  rw [gap]
  split
  · next some =>
    have split : (before ++ after).toList = before.toList ++ (after.toList ++ []) := by
      rw [List.append_nil, String.toList_append]
    have stop : (before ++ after).utf8ByteSize - 1 + 1 =
        byteLength before.toList + byteLength after.toList := by
      rw [byteLength_toList, byteLength_toList]
      omega
    rw [List.map_singleton, String.join_cons, String.join_nil, String.append_empty]
    exact ByteRange.toList_text split (byteLength_toList before).symm stop
  · next none =>
    have empty : after = "" := String.utf8ByteSize_eq_zero_iff.mp (by omega)
    rw [empty]
    rfl

theorem Theme.join_render (theme : Theme) (text : String) :
    String.join ((theme.render text).map Run.text) = text := by
  obtain ⟨rest, whole⟩ := exists_clamp_append text
  have tail := join_gap (clamp text) rest theme.palette
  rw [← whole] at tail
  rw [render_eq_append, List.map_append, String.join_append, join_highlight,
    join_map_text_saturate, tail, ← whole]

end Highlighter
