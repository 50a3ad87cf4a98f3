import Highlighter.Display.Output

/-! # What is written of a text

Both formats are made from the records of the runs: the terminal shows their colors and texts, and
the JSON list holds them whole. -/

set_option autoImplicit false

namespace Highlighter

namespace Theme

variable {theme theme' : Theme} {text : String}

theorem write_ansi (theme : Theme) (text : String) (sink : Sink) :
    theme.write text .ansi sink =
      match Sink.write (Terminal.encode (theme.render text)) sink with
      | .ok _ sink => .ok () sink
      | .error fault sink => .error (.write fault) sink := by
  simp only [write, Preview.update, Display.draw]
  cases Sink.write (Terminal.encode (theme.render text)) sink <;> rfl

theorem write_ansi_unbounded (theme : Theme) (text : String) :
    theme.write text .ansi (.ofRoom none) =
      .ok () ⟨(Terminal.encode (theme.render text)).toUTF8, none⟩ := by
  rw [write_ansi]
  simp only [Sink.write, Sink.ofRoom, ByteArray.empty_append]

theorem write_json (theme : Theme) (text : String) (sink : Sink) :
    theme.write text .json sink = (theme.recordsJson text).writeLine sink := rfl

theorem encode_eq_of_records (same : theme.records text = theme'.records text) :
    Terminal.encode (theme.render text) = Terminal.encode (theme'.render text) := by
  have shown := congrArg (List.map fun record : Run.Record =>
    Terminal.setColor record.color ++ record.text) same
  simp only [records, List.map_map] at shown
  have pieces : (theme.render text).map (fun run => Terminal.setColor run.color ++ run.text) =
      (theme'.render text).map fun run => Terminal.setColor run.color ++ run.text := shown
  have length := congrArg List.length pieces
  rw [List.length_map, List.length_map] at length
  have ended : (theme.render text).isEmpty = (theme'.render text).isEmpty := by
    rw [Bool.eq_iff_iff, List.isEmpty_iff_length_eq_zero, List.isEmpty_iff_length_eq_zero, length]
  rw [Terminal.encode, Terminal.encode, pieces, ended]

/-- The records decide what is written and whether it fits. -/
theorem write_congr (same : theme.records text = theme'.records text) (format : Format)
    (sink : Sink) : theme.write text format sink = theme'.write text format sink := by
  cases format with
  | ansi => rw [write_ansi, write_ansi, encode_eq_of_records same]
  | json => rw [write_json, write_json, recordsJson, recordsJson, same]

end Theme

end Highlighter
