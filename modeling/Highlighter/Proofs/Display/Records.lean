import Mathlib
import Highlighter.Proofs.Color.Codec
import Highlighter.Proofs.Display.Output
import Highlighter.Proofs.Json.Meaning
import Highlighter.Proofs.Run.Limit

/-! # Records that can be read again

The JSON list that is written of a text spells one value and no other: the list of the records of
its runs.  So whoever reads it has the runs again, and with them the whole text. -/

set_option autoImplicit false

namespace Highlighter

open Json Text

theorem Json.writeLine_unbounded (json : Json) :
    json.writeLine (.ofRoom none) = .ok () ⟨(json.pretty ++ "\n").toUTF8, none⟩ := by
  have bytes : (json.pretty ++ "\n").toUTF8 = json.pretty.toUTF8 ++ "\n".toUTF8 :=
    String.toByteArray_append
  simp only [writeLine, Sink.write, Sink.ofRoom, ByteArray.empty_append, bytes]

theorem Theme.exists_write_unbounded (theme : Theme) (text : String) (format : Format) :
    ∃ bytes, theme.write text format (.ofRoom none) = .ok () ⟨bytes, none⟩ := by
  cases format with
  | ansi => exact ⟨_, theme.write_ansi_unbounded text⟩
  | json => exact ⟨_, (theme.recordsJson text).writeLine_unbounded⟩

theorem Json.spells_pretty_iff {json json' : Json} :
    Spells json' json.pretty.toList ↔ json' = json := by
  have spelled : Spells json json.pretty.toList := by
    rw [pretty, String.toList_ofList]
    exact spells_prettyChars 0 json
  constructor
  · intro other
    exact other.unique spelled
  · rintro rfl
    exact spelled

/-- The bytes of the text of a run are those between its offsets. -/
theorem utf8ByteSize_text_of_mem_highlight {theme : Theme} {text : String} {run : Run}
    (member : run ∈ theme.highlight text) :
    run.range.first + run.text.utf8ByteSize = run.range.last + 1 := by
  have highlighting := isHighlighting_highlight theme text
  have boundaries : ∀ range ∈ (theme.highlight text).map Run.range, IsBoundary text range.stop := by
    intro range listed
    rw [← map_range_entry, map_entry_highlight] at listed
    obtain ⟨entry, known, rfl⟩ := List.mem_map.mp listed
    exact (isBoundary_outline theme text entry known).2
  have split : text.toList = [] ++ text.toList := rfl
  have sizes := (highlighting.tiles.text_eq split boundaries).2
  have size := sizes run.range (List.mem_map_of_mem member)
  rw [← highlighting.texts run member, byteLength_toList] at size
  exact size.symm

/-- Of every text one JSON value is written, with the end of a line after it.  It is the list of
the records of the runs, whose colors are read again from their texts, and whose texts are the
pieces of the whole text in order.  The offsets of a text that fits are those of its pieces. -/
theorem Theme.exists_document_of_records (theme : Theme) (text : String) :
    ∃ document : String,
      theme.write text .json (.ofRoom none) = .ok () ⟨(document ++ "\n").toUTF8, none⟩ ∧
      (∀ json, Spells json document.toList ↔
        json = .array ((theme.render text).map fun run => .object [
          ("text", .string run.text),
          ("color", .string run.color.print),
          ("category", .string (theme.nameOf run.category)),
          ("start", .number run.range.first),
          ("end", .number run.range.last)])) ∧
      (∀ run ∈ theme.render text, Color.parse run.color.print = .ok run.color) ∧
      String.join ((theme.render text).map Run.text) = text ∧
      (Fits text →
        (∀ run ∈ theme.render text,
          run.range.first + run.text.utf8ByteSize = run.range.last + 1) ∧
        Tiles 0 text.utf8ByteSize ((theme.render text).map Run.range)) := by
  refine ⟨(theme.recordsJson text).pretty, ?_, ?_, ?_, theme.join_render text, ?_⟩
  · rw [write_json, writeLine_unbounded]
  · intro json
    rw [spells_pretty_iff, recordsJson, records, List.map_map]
    rfl
  · intro run _
    exact Color.parse_print run.color
  · intro fits
    rw [theme.render_eq_highlight fits]
    refine ⟨?_, (isHighlighting_highlight theme text).tiles⟩
    intro run member
    exact utf8ByteSize_text_of_mem_highlight member

/-- The literal holds a quote of the other sort and a character of two bytes. -/
theorem Theme.exists_document_of_quotes :
    Fits "\t'\x22é'" ∧ ∃ document : String,
      (Theme.mk .empty .standard).write "\t'\x22é'" .json (.ofRoom none) =
        .ok () ⟨(document ++ "\n").toUTF8, none⟩ ∧
      ((Theme.mk .empty .standard).render "\t'\x22é'").map (fun run => (run.text, run.range)) =
        [("\t", ⟨0, 0⟩), ("'\x22é'", ⟨1, 5⟩)] ∧
      Tiles 0 6 (((Theme.mk .empty .standard).render "\t'\x22é'").map Run.range) := by
  have fits : Fits "\t'\x22é'" := by decide
  obtain ⟨document, written, _, _, _, placed⟩ :=
    (Theme.mk .empty .standard).exists_document_of_records "\t'\x22é'"
  have runs : ((Theme.mk .empty .standard).render "\t'\x22é'").map
      (fun run => (run.text, run.range)) = [("\t", ⟨0, 0⟩), ("'\x22é'", ⟨1, 5⟩)] := by
    rw [render_eq_highlight _ fits, highlight, tokenize_eq_layout]
    cbv
  exact ⟨fits, document, written, runs, (placed fits).2⟩

end Highlighter
