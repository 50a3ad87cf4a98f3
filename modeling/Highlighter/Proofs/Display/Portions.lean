import Mathlib
import Highlighter.Display.Portions
import Highlighter.Proofs.Display.Records

/-! # Output into sinks that are too small

Writing in portions comes to the same as writing all of them at once: what fits is written, and
nothing behind it.  So a sink with room for some bytes has the first bytes of the whole output, and
where it is full decides which fault is told. -/

set_option autoImplicit false

namespace Highlighter

/-! ## One text after the other -/

namespace Sink

theorem write_empty : write "" = pure () := by
  funext sink
  obtain ⟨written, room⟩ := sink
  cases room <;> simp [write, pure, EStateM.pure]

theorem extract_of_size_le {bytes : ByteArray} {stop : Nat} (le : bytes.size ≤ stop) :
    bytes.extract 0 stop = bytes := by
  rw [← Nat.max_eq_left le, ByteArray.extract_zero_max_size]

theorem toUTF8_append (left right : String) :
    (left ++ right).toUTF8 = left.toUTF8 ++ right.toUTF8 := String.toByteArray_append

theorem write_of_le {text : String} {room : Nat} (written : ByteArray)
    (fits : text.toUTF8.size ≤ room) : write text ⟨written, some room⟩ =
      .ok () ⟨written ++ text.toUTF8, some (room - text.toUTF8.size)⟩ := by
  simp only [write, if_pos fits]

theorem write_of_lt {text : String} {room : Nat} (written : ByteArray)
    (overflows : room < text.toUTF8.size) : write text ⟨written, some room⟩ =
      .error .full ⟨written ++ text.toUTF8.extract 0 room, some 0⟩ := by
  simp only [write, if_neg (Nat.not_le.mpr overflows)]

/-- What does not fit of a text is cut off there, be the text written at once or in two. -/
theorem write_append (left right : String) :
    write (left ++ right) = (do write left; write right) := by
  funext ⟨written, room⟩
  change _ = EStateM.bind (write left) (fun _ => write right) ⟨written, room⟩
  cases room with
  | none => simp only [EStateM.bind, write, toUTF8_append, ByteArray.append_assoc]
  | some room =>
      have total : (left ++ right).toUTF8.size = left.toUTF8.size + right.toUTF8.size := by
        rw [toUTF8_append, ByteArray.size_append]
      rcases Nat.lt_or_ge room left.toUTF8.size with early | fits
      · have overflows : room < (left ++ right).toUTF8.size := by omega
        have none : room - left.toUTF8.size = 0 := by omega
        simp only [EStateM.bind, write_of_lt written early, write_of_lt written overflows,
          toUTF8_append, ByteArray.extract_append, none, Nat.zero_sub, ByteArray.extract_same,
          ByteArray.append_empty]
      · rcases Nat.lt_or_ge (room - left.toUTF8.size) right.toUTF8.size with late | fits'
        · have overflows : room < (left ++ right).toUTF8.size := by omega
          simp only [EStateM.bind, write_of_le written fits, write_of_lt written overflows,
            write_of_lt _ late, toUTF8_append, ByteArray.extract_append, Nat.zero_sub,
            extract_of_size_le fits, ByteArray.append_assoc]
        · have fitting : (left ++ right).toUTF8.size ≤ room := by omega
          simp only [EStateM.bind, write_of_le written fits, write_of_le written fitting,
            write_of_le _ fits', toUTF8_append, ByteArray.size_append, ByteArray.append_assoc,
            Nat.sub_add_eq]

theorem writeAll_eq (texts : List String) : writeAll texts = write (String.join texts) := by
  induction texts with
  | nil => exact write_empty.symm
  | cons text rest ih => rw [writeAll, ih, ← write_append, String.join_cons]

/-- A new sink with room for `limit` bytes after these were written, or as many as fit. -/
def filled (bytes : ByteArray) (limit : Nat) : Sink :=
  ⟨bytes.extract 0 (min limit bytes.size), some (limit - bytes.size)⟩

theorem write_ofRoom (text : String) (limit : Nat) :
    write text (.ofRoom (some limit)) =
      if text.toUTF8.size ≤ limit then .ok () (filled text.toUTF8 limit)
      else .error .full (filled text.toUTF8 limit) := by
  rw [ofRoom]
  split
  · next fits =>
    rw [write_of_le _ fits, filled, Nat.min_eq_right fits, ByteArray.extract_zero_size,
      ByteArray.empty_append]
  · next overflows =>
    have short := Nat.lt_of_not_le overflows
    rw [write_of_lt _ short, filled, Nat.min_eq_left (Nat.le_of_lt short),
      Nat.sub_eq_zero_of_le (Nat.le_of_lt short), ByteArray.empty_append]

end Sink

/-! ## What the portions make up -/

namespace Terminal

theorem join_runPortions (run : Run) :
    String.join (runPortions run) = setColor run.color ++ run.text := by
  simp only [runPortions, String.join_cons, String.join_nil, setColor, String.append_assoc,
    String.append_empty]
  rfl

theorem join_flatMap_runPortions (runs : List Run) : String.join (runs.flatMap runPortions) =
    String.join (runs.map fun run => setColor run.color ++ run.text) := by
  induction runs with
  | nil => rfl
  | cons run rest ih =>
      rw [List.flatMap_cons, String.join_append, join_runPortions, ih, List.map_cons,
        String.join_cons]

theorem join_portions (runs : List Run) : String.join (portions runs) = encode runs := by
  rw [portions, String.join_append, join_flatMap_runPortions, encode]
  cases runs with
  | nil => rfl
  | cons run rest =>
      simp only [List.isEmpty_cons, Bool.false_eq_true, if_false, String.join_cons,
        String.join_nil, String.append_empty]

end Terminal

namespace Json

theorem toList_stretches (stretches : List (List Char)) :
    (stretches.map fun chars => String.ofList (chars.flatMap escapeChar)).flatMap String.toList =
      stretches.flatten.flatMap escapeChar := by
  induction stretches with
  | nil => rfl
  | cons chars rest ih =>
      rw [List.map_cons, List.flatMap_cons, ih, String.toList_ofList, List.flatten_cons,
        List.flatMap_append]

theorem toList_stringPortions (text : String) :
    (stringPortions text).flatMap String.toList = writeString text := by
  have whole := List.flatten_splitBy (fun c d => isRaw c && isRaw d) text.toList
  rw [stringPortions, List.flatMap_append, List.flatMap_cons, toList_stretches, whole,
    writeString]
  rfl

theorem toList_indentPortions (level : Nat) :
    (indentPortions level).flatMap String.toList = List.replicate (2 * level) ' ' := by
  rw [indentPortions]
  induction level with
  | zero => rfl
  | succ level ih =>
      rw [List.replicate_succ, List.flatMap_cons, ih]
      rfl

theorem toList_newLine (level : Nat) :
    ("\n" :: indentPortions level).flatMap String.toList = newLine level := by
  rw [List.flatMap_cons, toList_indentPortions]
  rfl

theorem toList_blockPortions {α : Type} {opening closing : String} {open' close : Char}
    {values : List α} {divide : α → List String} {write : α → List Char} (level : Nat)
    (opens : opening.toList = [open']) (closes : closing.toList = [close])
    (divided : ∀ value ∈ values, (divide value).flatMap String.toList = write value) :
    (blockPortions opening closing level (values.map divide)).flatMap String.toList =
      block open' close level (values.map write) := by
  cases values with
  | nil =>
      simp only [List.map_nil, blockPortions, block, List.isEmpty_nil, if_true, List.flatMap_cons,
        List.flatMap_nil, opens, closes]
      rfl
  | cons value rest =>
      have first := divided value List.mem_cons_self
      have others : ((rest.map divide).flatMap fun item =>
          ",\n" :: indentPortions (level + 1) ++ item).flatMap String.toList =
            rest.flatMap fun value => ',' :: newLine (level + 1) ++ write value := by
        rw [List.flatMap_map, List.flatMap_assoc]
        refine List.flatMap_congr fun value member => ?_
        have other := divided value (List.mem_cons_of_mem _ member)
        rw [List.flatMap_append, List.flatMap_cons, toList_indentPortions, other]
        rfl
      rw [List.map_cons, List.map_cons, blockPortions, block, intercalate_cons_map]
      rw [List.flatMap_append, List.flatMap_append, List.flatMap_append, List.flatMap_append,
        List.flatMap_cons, toList_newLine, toList_newLine, first, others, opens]
      simp [closes]

theorem toList_prettyPortions (level : Nat) (json : Json) :
    (json.prettyPortions level).flatMap String.toList = json.prettyChars level := by
  induction level, json using prettyChars.induct with
  | case1 level text => rw [prettyPortions, prettyChars, toList_stringPortions]
  | case2 level value =>
      rw [prettyPortions, prettyChars, List.flatMap_cons, List.flatMap_nil, List.append_nil,
        String.toList_ofList]
  | case3 level items ih =>
      rw [prettyPortions, prettyChars]
      exact toList_blockPortions level rfl rfl ih
  | case4 level fields ih =>
      rw [prettyPortions, prettyChars]
      refine toList_blockPortions level rfl rfl fun field member => ?_
      rw [List.flatMap_append, List.flatMap_cons, toList_stringPortions, ih field member,
        List.append_assoc]
      rfl

namespace Encoder

/-- The encoder that writes each part of the layout by itself. -/
def byLayout : Encoder where
  portions json := json.prettyPortions 0
  join_portions json := by
    apply String.toList_injective
    rw [String.toList_join, toList_prettyPortions, pretty, String.toList_ofList]

example : byLayout.portions (.array [.string "7\n\n8", .number 10]) =
    ["[", "\n", "  ", "\x22", "7", "\\n", "\\n", "8", "\x22", ",\n", "  ", "10", "\n", "]"] := by
  cbv

end Encoder

end Json

/-! ## The whole output -/

namespace Theme

variable (encoder : Json.Encoder) (theme : Theme) (text : String)

theorem writePortions_ansi :
    theme.writePortions encoder text .ansi = theme.write text .ansi := by
  funext sink
  rw [writePortions, Sink.writeAll_eq, Terminal.join_portions, write_ansi, EStateM.adaptExcept]
  cases Sink.write (Terminal.encode (theme.render text)) sink <;> rfl

theorem writePortions_json :
    theme.writePortions encoder text .json = theme.write text .json := by
  funext sink
  rw [writePortions, Sink.writeAll_eq, Sink.writeAll_eq, encoder.join_portions, write_json,
    Json.writeLine]
  simp only [bind, EStateM.bind, EStateM.adaptExcept, String.join_cons, String.join_nil,
    String.append_empty]
  cases Sink.write (theme.recordsJson text).pretty sink with
  | error fault sink => rfl
  | ok _ sink =>
      dsimp only
      cases Sink.write "\n" sink <;> rfl

/-- No way to divide the output makes a difference, whatever fits into the sink. -/
theorem writePortions_eq_write (format : Format) :
    theme.writePortions encoder text format = theme.write text format := by
  cases format with
  | ansi => exact theme.writePortions_ansi encoder text
  | json => exact theme.writePortions_json encoder text

end Theme

/-! ## Cut output -/

/-- The fault that is told of an output of `size` bytes for which there is room for `limit` only.
An end of line that does not fit belongs to no JSON value. -/
def OutputFault.ofCut (format : Format) (limit size : Nat) : OutputFault :=
  match format with
  | .ansi => .write .full
  | .json => if limit < size - 1 then .encode .full else .write .full

theorem Json.writeLine_ofRoom (json : Json) (limit : Nat) :
    let full := (json.pretty ++ "\n").toUTF8
    json.writeLine (.ofRoom (some limit)) =
      if full.size ≤ limit then .ok () (.filled full limit)
      else .error (.ofCut .json limit full.size) (.filled full limit) := by
  intro full
  have size : full.size = json.pretty.toUTF8.size + 1 := by
    rw [show full = _ from Sink.toUTF8_append json.pretty "\n", ByteArray.size_append]
    rfl
  -- At once the value and the end of its line leave the sink as they do one after the other.
  have whole := congrFun (Sink.write_append json.pretty "\n") (.ofRoom (some limit))
  change _ = EStateM.bind (Sink.write json.pretty) (fun _ => Sink.write "\n") _ at whole
  rw [Sink.write_ofRoom, EStateM.bind, Sink.write_ofRoom] at whole
  rw [writeLine, Sink.write_ofRoom]
  rcases Nat.lt_or_ge limit json.pretty.toUTF8.size with early | fits
  · have overflows : ¬full.size ≤ limit := by omega
    have within : limit < full.size - 1 := by omega
    rw [if_neg overflows, if_neg (Nat.not_le.mpr early)] at whole
    injection whole with _ sinks
    rw [if_neg (Nat.not_le.mpr early), if_neg overflows, OutputFault.ofCut, if_pos within, sinks]
  · have behind : ¬limit < full.size - 1 := by omega
    rw [if_pos fits] at whole
    rw [if_pos fits]
    dsimp only at whole ⊢
    rw [← whole, OutputFault.ofCut, if_neg behind]
    by_cases all : full.size ≤ limit
    · rw [if_pos all, if_pos all]
    · rw [if_neg all, if_neg all]

namespace Theme

/-- However the output is divided, and for every limit, a sink that takes so many bytes has the
first of those that are written where there is no limit, and as many as it takes.  Writing
succeeds just if these are all.  If not, the format and the place of the cut decide the fault. -/
theorem writePortions_bounded (encoder : Json.Encoder) (theme : Theme) (text : String)
    (format : Format) :
    theme.writePortions encoder text format = theme.write text format ∧
    ∃ full : ByteArray,
      theme.writePortions encoder text format (.ofRoom none) = .ok () ⟨full, none⟩ ∧
      ∀ limit, ∃ sink, sink.written = full.extract 0 (min limit full.size) ∧
        theme.writePortions encoder text format (.ofRoom (some limit)) =
          if full.size ≤ limit then .ok () sink
          else .error (.ofCut format limit full.size) sink := by
  rw [writePortions_eq_write]
  refine ⟨rfl, ?_⟩
  cases format with
  | ansi =>
      refine ⟨_, theme.write_ansi_unbounded text, fun limit => ⟨.filled _ limit, rfl, ?_⟩⟩
      rw [write_ansi, Sink.write_ofRoom]
      by_cases all : (Terminal.encode (theme.render text)).toUTF8.size ≤ limit
      · rw [if_pos all, if_pos all]
      · rw [if_neg all, if_neg all, OutputFault.ofCut]
  | json =>
      refine ⟨_, (theme.recordsJson text).writeLine_unbounded, fun limit =>
        ⟨.filled _ limit, rfl, ?_⟩⟩
      exact (theme.recordsJson text).writeLine_ofRoom limit

/-- The last byte is the end of the line, and the one before it still closes the list. -/
theorem writePortions_bounded_byLayout :
    let digit := (Theme.mk .empty .standard).writePortions .byLayout "7\n" .json
    ∃ full : ByteArray, full.size = 111 ∧ digit (.ofRoom none) = .ok () ⟨full, none⟩ ∧
      (∃ sink, sink.written = full.extract 0 110 ∧
        digit (.ofRoom (some 110)) = .error (.write .full) sink) ∧
      ∃ sink, sink.written = full.extract 0 109 ∧
        digit (.ofRoom (some 109)) = .error (.encode .full) sink := by
  obtain ⟨same, full, unbounded, bounded⟩ :=
    writePortions_bounded .byLayout (Theme.mk .empty .standard) "7\n" .json
  have size : full.size = 111 := by
    rw [same, write_json, Json.writeLine_unbounded] at unbounded
    injection unbounded with _ sinks
    injection sinks with bytes
    rw [← bytes]
    cbv
  obtain ⟨atEnd, written, failed⟩ := bounded 110
  obtain ⟨within, written', failed'⟩ := bounded 109
  rw [size] at written written' failed failed'
  exact ⟨full, size, unbounded, ⟨atEnd, written, failed⟩, within, written', failed'⟩

end Theme

end Highlighter
