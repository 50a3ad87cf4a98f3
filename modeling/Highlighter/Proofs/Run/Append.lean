import Highlighter.Proofs.Run.Highlighting
import Highlighter.Proofs.Token.Split

/-! # More text at the end

What is put after a text can change its last token: a word may go on, a literal may close.  The
tokens before that one stay, and so do all runs but the last two, as the run before the last token
may go on too. -/

set_option autoImplicit false

namespace Highlighter

open Text Entry

/-! ## Tokens -/

/-- The last pieces are cut again, together with what follows them; those before stay. -/
theorem cut_append {chars : List Char} {first second : List Piece}
    (found : cut chars = first ++ second) (nonempty : second ≠ []) (more : List Char) :
    cut (chars ++ more) = first ++ cut (second.flatMap Piece.chars ++ more) := by
  have isCut := isCut_cut chars
  rw [found] at isCut
  have whole := isCut.whole
  rw [List.flatMap_append] at whole
  obtain ⟨early, late, border⟩ := isCut.of_append
  have again := isCut_cut (second.flatMap Piece.chars ++ more)
  obtain ⟨piece, others, rfl⟩ := List.exists_cons_of_ne_nil nonempty
  rw [← whole, List.append_assoc]
  apply cut_eq_of_isCut
  apply early.append again
  intro last isLast next head
  obtain ⟨notOpen, apart⟩ := border last isLast piece rfl
  refine ⟨notOpen, ?_⟩
  rintro ⟨lastWord, nextWord⟩
  -- the new piece starts with the character that could not go on with the word before it
  have stop := late.isWordChar_eq_false_of_head fun next' head' word =>
    apart ⟨lastWord, by rwa [Option.some.inj head']⟩
  have start : (piece :: others).flatMap Piece.chars ≠ [] := by
    have ne_nil := late.head_formed.ne_nil
    simp [ne_nil]
  rw [← List.head?_append_of_ne_nil _ start] at stop
  exact again.not_isWord_of_head stop next head nextWord

theorem exists_tokenize_append (before after : String) :
    ∃ rest, tokenize (before ++ after) = (tokenize before).dropLast ++ rest := by
  rw [tokenize_eq_layout before]
  rcases List.eq_nil_or_concat (cut before.toList) with none | ⟨first, last, found⟩
  · rw [none]
    exact ⟨_, rfl⟩
  · rw [List.concat_eq_append] at found
    rw [tokenize_eq_layout, String.toList_append, cut_append found (by simp), found,
      layout_append, layout_append, layout, layout, List.dropLast_concat]
    exact ⟨_, rfl⟩

theorem Theme.exists_tokenEntries_append (theme : Theme) (before after : String) :
    ∃ rest, theme.tokenEntries (before ++ after) =
      (theme.tokenEntries before).dropLast ++ rest := by
  obtain ⟨rest, found⟩ := exists_tokenize_append before after
  refine ⟨rest.map (Token.entry (before ++ after) theme.lexicon), ?_⟩
  rw [tokenEntries, found, List.map_append, tokenEntries, List.dropLast_eq_take,
    List.dropLast_eq_take, List.length_map, ← List.map_take]
  congr 1
  apply List.map_congr_left
  intro token member
  have tokenization := isTokenization_tokenize before
  have known := List.mem_of_mem_take member
  obtain ⟨first, stop⟩ := tokenization.boundaries token known
  have nonempty := (tiles_iff_successive.mp tokenization.tiles).le_of_mem token.range
    (List.mem_map_of_mem known)
  have same := ByteRange.text_append first stop nonempty after
  simp only [Token.entry, Token.category, Token.text, same]

/-! ## Entries -/

namespace Entry

theorem tail_push (newest : List Entry) (entry : Entry) :
    newest.tail <:+ (push newest entry).tail := by
  rcases push_cases newest entry with ⟨last, before, rfl, _, _, same⟩ | ⟨same, _⟩
  · rw [same]
    exact List.suffix_rfl
  · rw [same]
    exact List.tail_suffix newest

theorem tail_pushAll (entries : List Entry) : ∀ newest : List Entry,
    newest.tail <:+ (pushAll newest entries).tail := by
  induction entries with
  | nil =>
      intro newest
      exact List.suffix_rfl
  | cons entry rest ih =>
      intro newest
      exact (tail_push newest entry).trans (ih (push newest entry))

theorem length_push_le (newest : List Entry) (entry : Entry) :
    (push newest entry).length ≤ newest.length + 1 := by
  rcases push_cases newest entry with ⟨last, before, rfl, _, _, same⟩ | ⟨same, _⟩
  · rw [same]
    exact Nat.le_succ _
  · rw [same]
    exact Nat.le_refl _

/-- Of the entries in order, all but the last two are the same whatever was added instead of the
last one. -/
theorem take_pushAll (newest : List Entry) (entry : Entry) (entries : List Entry) :
    (pushAll newest entries).reverse.take ((push newest entry).length - 2) =
      (push newest entry).reverse.take ((push newest entry).length - 2) := by
  have settled : ∀ {later : List Entry}, newest.tail <:+ later.tail →
      later.reverse.take ((push newest entry).length - 2) =
        newest.tail.reverse.take ((push newest entry).length - 2) := by
    intro later kept
    have enough : (push newest entry).length - 2 ≤ newest.tail.reverse.length := by
      have bound := length_push_le newest entry
      rw [List.length_reverse, List.length_tail]
      omega
    obtain ⟨others, split⟩ := List.reverse_prefix.mpr (kept.trans (List.tail_suffix later))
    rw [← split, List.take_append_of_le_length enough]
  rw [settled (tail_pushAll entries newest), settled (tail_push newest entry)]

end Entry

/-! ## Runs -/

theorem Theme.take_entries_append (theme : Theme) (before after : String) :
    (theme.outline (before ++ after)).entries.take ((theme.outline before).entries.length - 2) =
      (theme.outline before).entries.take ((theme.outline before).entries.length - 2) := by
  obtain ⟨rest, found⟩ := theme.exists_tokenEntries_append before after
  simp only [Outline.entries, newest_outline, List.length_reverse, found]
  rcases List.eq_nil_or_concat (theme.tokenEntries before) with none | ⟨first, last, split⟩
  · rw [none]
    rfl
  · have early : pushAll [] (theme.tokenEntries before) = push (pushAll [] first) last := by
      rw [split, List.concat_eq_append, pushAll, List.foldl_append]
      rfl
    have late : pushAll [] ((theme.tokenEntries before).dropLast ++ rest) =
        pushAll (pushAll [] first) rest := by
      rw [split, List.concat_eq_append, List.dropLast_concat, pushAll, List.foldl_append]
      rfl
    rw [early, late]
    exact take_pushAll (pushAll [] first) last rest

/-- Whatever is put after a text, all tokens of the text but the last and all runs but the last two
stay what and where they are. -/
theorem tokenize_highlight_append (theme : Theme) (before after : String) :
    (tokenize before).dropLast <+: tokenize (before ++ after) ∧
      (theme.highlight (before ++ after)).take ((theme.highlight before).length - 2) =
        (theme.highlight before).take ((theme.highlight before).length - 2) := by
  refine ⟨?_, ?_⟩
  · obtain ⟨rest, found⟩ := exists_tokenize_append before after
    exact ⟨rest, found.symm⟩
  · rw [highlight_eq_map_run, highlight_eq_map_run, List.length_map, ← List.map_take,
      ← List.map_take, theme.take_entries_append]
    apply List.map_congr_left
    intro entry member
    have known := List.mem_of_mem_take member
    obtain ⟨first, stop⟩ := isBoundary_outline theme before entry known
    have nonempty := (tiles_iff_successive.mp (joins_outline theme before).tiles).le_of_mem
      entry.range (List.mem_map_of_mem known)
    rw [Entry.run, ByteRange.text_append first stop nonempty]
    rfl

end Highlighter
