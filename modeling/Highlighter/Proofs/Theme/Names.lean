import Highlighter.Proofs.Run.Limit
import Highlighter.Proofs.Run.WholeWords
import Highlighter.Proofs.Theme.Specification

/-! # Names of categories

A record has a name for the category of its run.  Plain text and literals are named alike in every
theme, and a group has the name that its author gave it.  A draft keeps the names of the groups
apart from each other but not from the two fixed ones.  So a record tells the category of its run
if no group of a fixed name has words that a text has room for.  Otherwise there are records of one
or of two texts that do not. -/

set_option autoImplicit false

namespace Highlighter

open Text

/-! ## The categories of the runs -/

def Piece.category (lexicon : Lexicon) (piece : Piece) : Category :=
  match piece.kind with
  | .literal => .literal
  | .plain => lexicon.category (String.ofList piece.chars)

theorem Token.category_eq_category_piece (text : String) (lexicon : Lexicon) (token : Token) :
    token.category text lexicon = (token.piece text).category lexicon := by
  cases kind : token.kind with
  | literal => simp only [Token.category, Piece.category, Token.piece, kind]
  | plain =>
      simp only [Token.category, Piece.category, Token.piece, kind, String.ofList_toList]

namespace Entry

variable {category : Category} {newest : List Entry} {entry : Entry}

/-- Joining two plain entries leaves a plain one. -/
theorem exists_category_push : (∃ added ∈ push newest entry, added.category = category) ↔
    (∃ added ∈ newest, added.category = category) ∨ entry.category = category := by
  rcases push_cases newest entry with ⟨last, before, rfl, lastPlain, plain, same⟩ | ⟨same, _⟩
  · simp only [isPlain, beq_iff_eq] at lastPlain plain
    simp only [same, List.exists_mem_cons_iff, lastPlain, plain]
    rw [or_right_comm, or_self]
  · rw [same, List.exists_mem_cons_iff, or_comm]

theorem exists_category_pushAll {entries : List Entry} : ∀ {newest : List Entry},
    (∃ added ∈ pushAll newest entries, added.category = category) ↔
      (∃ added ∈ newest, added.category = category) ∨
        ∃ entry ∈ entries, entry.category = category := by
  induction entries with
  | nil =>
      intro newest
      simp [pushAll]
  | cons entry rest ih =>
      intro newest
      rw [pushAll, List.foldl_cons, ← pushAll, ih, exists_category_push,
        List.exists_mem_cons_iff, or_assoc]

end Entry

/-- The runs of a text have the categories of its pieces. -/
theorem exists_run_category_iff {theme : Theme} {text : String} {category : Category} :
    (∃ run ∈ theme.highlight text, run.category = category) ↔
      ∃ piece ∈ cut text.toList, piece.category theme.lexicon = category := by
  have runs : (∃ run ∈ theme.highlight text, run.category = category) ↔
      ∃ entry ∈ (theme.highlight text).map Run.entry, entry.category = category := by
    simp [Run.entry]
  rw [runs, map_entry_highlight, Outline.entries, Theme.newest_outline]
  simp only [List.mem_reverse]
  rw [Entry.exists_category_pushAll, ← map_piece_tokenize]
  simp [Theme.tokenEntries, Token.entry, Token.category_eq_category_piece]

theorem Piece.kind_of_category_eq_literal {piece : Piece} {lexicon : Lexicon}
    (literal : piece.category lexicon = .literal) : piece.kind = .literal := by
  obtain ⟨kind, chars⟩ := piece
  cases kind with
  | literal => rfl
  | plain =>
      simp only [Piece.category, Lexicon.category] at literal
      split at literal <;> contradiction

/-! ## Pieces that are shown -/

section Shown

variable {theme : Theme} {text word : String} {run : Run} {piece other : Piece}

theorem exists_mem_render_of_mem_cut (theme : Theme) (member : piece ∈ cut (clamp text).toList) :
    ∃ run ∈ theme.render text, run.category = piece.category theme.lexicon := by
  obtain ⟨run, shown, category⟩ := exists_run_category_iff.mpr ⟨piece, member, rfl⟩
  rw [theme.render_eq_append]
  exact ⟨run, List.mem_append_left _ shown, category⟩

theorem exists_mem_cut_of_mem_render (member : run ∈ theme.render text)
    (notPlain : run.category ≠ .plain) :
    ∃ piece ∈ cut (clamp text).toList, piece.category theme.lexicon = run.category := by
  rcases Theme.mem_highlight_or_plain_of_mem_render member with early | plain
  · exact exists_run_category_iff.mp ⟨run, early, rfl⟩
  · contradiction

theorem byteLength_le_of_mem {pieces : List Piece} (member : piece ∈ pieces) :
    byteLength piece.chars ≤ byteLength (pieces.flatMap Piece.chars) := by
  obtain ⟨before, after, rfl⟩ := List.append_of_mem member
  rw [List.flatMap_append, List.flatMap_cons, byteLength_append, byteLength_append]
  omega

theorem fits_of_mem_cut {kind : TokenKind}
    (member : ⟨kind, word.toList⟩ ∈ cut (clamp text).toList) : Fits word := by
  have within := fits_clamp text
  have bound := byteLength_le_of_mem member
  rw [(isCut_cut (clamp text).toList).whole, byteLength_toList, byteLength_toList] at bound
  exact Nat.lt_of_le_of_lt bound within

/-- Two pieces of a text lie apart. -/
theorem byteLength_add_le_of_mem_cut {chars : List Char} (member : piece ∈ cut chars)
    (member' : other ∈ cut chars) (different : other ≠ piece) :
    byteLength piece.chars + byteLength other.chars ≤ byteLength chars := by
  obtain ⟨before, after, split⟩ := List.append_of_mem member
  have whole := (isCut_cut chars).whole
  rw [split] at member' whole
  have elsewhere : other ∈ before ++ after := by
    simpa [different] using member'
  have bound := byteLength_le_of_mem elsewhere
  rw [← whole]
  rw [List.flatMap_append, byteLength_append] at bound ⊢
  rw [List.flatMap_cons, byteLength_append]
  omega

/-- What is not a word stands apart from a word before it. -/
theorem cut_append_of_isWord {word : List Char} {mark : Piece}
    (isWord : Piece.IsWord ⟨.plain, word⟩) (formed : IsFormed mark) (notWord : ¬ mark.IsWord) :
    cut (word ++ mark.chars) = [⟨.plain, word⟩, mark] := by
  refine cut_eq_of_isCut (IsCut.cons (.inr (.inl isWord)) ?_ (.singleton formed))
  intro next head
  obtain rfl : mark = next := by simpa using head
  exact ⟨Piece.not_isOpen_of_plain rfl, fun both => notWord both.2⟩

end Shown

namespace Piece

/-- A space between words. -/
def space : Piece := ⟨.plain, [' ']⟩

/-- A quote at the end of a text. -/
def lastQuote : Piece := ⟨.literal, ['\'']⟩

theorem isSeparator_space : space.IsSeparator := ⟨rfl, ' ', by decide, rfl⟩

theorem isOpen_lastQuote : lastQuote.IsOpen := ⟨rfl, '\'', [], by decide, rfl, rfl⟩

end Piece

/-! ## The names -/

def IsFixedName (name : String) : Prop :=
  name = "default" ∨ name = "string"

namespace Theme

/-- Plain text, literals and the groups of the lexicon. -/
def categories (theme : Theme) : List Category :=
  .plain :: .literal :: theme.lexicon.groupIds.map .keyword

/-- Records with one name of a category belong to runs of one category. -/
def TellsApart (theme : Theme) (text other : String) : Prop :=
  ∀ run ∈ theme.render text, ∀ run' ∈ theme.render other,
    (run.toRecord theme).category = (run'.toRecord theme).category → run.category = run'.category

/-- A run of a group in `text` and one of no group in `other` have one name for their categories. -/
def Clashes (theme : Theme) (text other : String) : Prop :=
  ∃ run ∈ theme.render text, ∃ run' ∈ theme.render other,
    (∃ number, run.category = .keyword number) ∧ (¬ ∃ number, run'.category = .keyword number) ∧
      theme.nameOf run.category = theme.nameOf run'.category

theorem map_category_records (theme : Theme) (text : String) :
    (theme.records text).map Run.Record.category =
      ((theme.render text).map Run.category).map theme.nameOf := by
  rw [records, List.map_map, List.map_map]
  rfl

end Theme

/-- The two fixed names are different. -/
theorem Theme.eq_of_nameOf_eq {theme : Theme} {category other : Category}
    (noKeyword : ¬ ∃ number, category = .keyword number)
    (noKeyword' : ¬ ∃ number, other = .keyword number)
    (same : theme.nameOf category = theme.nameOf other) : category = other := by
  cases category with
  | keyword number => exact absurd ⟨number, rfl⟩ noKeyword
  | plain =>
      cases other with
      | keyword number => exact absurd ⟨number, rfl⟩ noKeyword'
      | plain => rfl
      | literal => simp [nameOf] at same
  | literal =>
      cases other with
      | keyword number => exact absurd ⟨number, rfl⟩ noKeyword'
      | plain => simp [nameOf] at same
      | literal => rfl

namespace ThemeSpec

variable {spec : ThemeSpec} {group : GroupSpec} {number : GroupId} {text : String} {run : Run}

theorem name?_theme (all : LexiconDraft.empty.AcceptsAll spec.calls)
    (found : spec.groups[number.val]? = some group) :
    spec.theme.lexicon.name? number = some group.name := by
  rw [Lexicon.name?, group?_theme all, found]
  rfl

theorem nameOf_theme (all : LexiconDraft.empty.AcceptsAll spec.calls)
    (found : spec.groups[number.val]? = some group) :
    spec.theme.nameOf (.keyword number) = group.name := by
  rw [Theme.nameOf, name?_theme all found]
  rfl

theorem exists_group_of_lt (all : LexiconDraft.empty.AcceptsAll spec.calls)
    (inside : number.val < spec.theme.lexicon.groupCount) :
    ∃ group, spec.groups[number.val]? = some group := by
  rw [groupCount_theme all] at inside
  exact ⟨_, List.getElem?_eq_getElem inside⟩

theorem names_nodup (all : LexiconDraft.empty.AcceptsAll spec.calls) :
    (spec.groups.map GroupSpec.name).Nodup := by
  have named := all.fits.named
  rw [calls, List.map_map] at named
  exact named

theorem map_nameOf_categories (all : LexiconDraft.empty.AcceptsAll spec.calls) :
    spec.theme.categories.map spec.theme.nameOf =
      "default" :: "string" :: spec.groups.map GroupSpec.name := by
  have fits := (LexiconDraft.isKept_afterGroups spec.calls).fits
  have groups := congrArg (fun whole => whole.groups.map GroupSpec.name) (spec_theme all)
  simp only [Theme.spec, List.map_map] at groups
  rw [Theme.categories, List.map_cons, List.map_cons, List.map_map, ← groups]
  congr 2
  apply List.map_congr_left
  intro number member
  obtain ⟨group, found⟩ := exists_group_of_lt all (Lexicon.lt_of_mem_groupIds fits member)
  rw [Function.comp_apply, Function.comp_apply, nameOf_theme all found, groupSpec_theme all found]

theorem nodup_nameOf_iff (all : LexiconDraft.empty.AcceptsAll spec.calls) :
    (spec.theme.categories.map spec.theme.nameOf).Nodup ↔
      ∀ group ∈ spec.groups, ¬ IsFixedName group.name := by
  have names := names_nodup all
  rw [map_nameOf_categories all]
  simp only [List.nodup_cons, List.mem_cons, List.mem_map, IsFixedName]
  grind

/-! ## Telling categories apart -/

section Clashes

variable {other word : String}

theorem exists_word_of_mem_render (all : LexiconDraft.empty.AcceptsAll spec.calls)
    (member : run ∈ spec.theme.render text) (keyword : run.category = .keyword number) :
    ∃ group word, spec.groups[number.val]? = some group ∧ word ∈ group.keywords ∧
      ⟨.plain, word.toList⟩ ∈ cut (clamp text).toList := by
  have indexed := (LexiconDraft.isKept_afterGroups spec.calls).sound.indexed
  have notPlain : run.category ≠ .plain := by simp [keyword]
  obtain ⟨⟨kind, chars⟩, shown, category⟩ := exists_mem_cut_of_mem_render member notPlain
  rw [keyword] at category
  cases kind with
  | literal => contradiction
  | plain =>
      have listed : String.ofList chars ∈ spec.theme.lexicon.words number :=
        (Lexicon.category_eq_keyword indexed).mp category
      obtain ⟨group, found⟩ := exists_group_of_lt all (Lexicon.lt_groupCount_of_mem_words listed)
      have words : spec.theme.lexicon.words number = group.keywords :=
        congrArg GroupSpec.keywords (groupSpec_theme all found)
      rw [words] at listed
      refine ⟨group, String.ofList chars, found, listed, ?_⟩
      rw [String.toList_ofList]
      exact shown

/-- The names of groups are different, so only a group and what is in no group can be confused. -/
theorem tellsApart_iff (all : LexiconDraft.empty.AcceptsAll spec.calls) :
    spec.theme.TellsApart text other ↔
      ¬ spec.theme.Clashes text other ∧ ¬ spec.theme.Clashes other text := by
  have named := (LexiconDraft.isKept_afterGroups spec.calls).isCoherent.named
  constructor
  · intro apart
    constructor
    · rintro ⟨run, member, run', member', ⟨number, keyword⟩, noKeyword, same⟩
      rw [apart run member run' member' same] at keyword
      exact noKeyword ⟨number, keyword⟩
    · rintro ⟨run, member, run', member', ⟨number, keyword⟩, noKeyword, same⟩
      rw [← apart run' member' run member same.symm] at keyword
      exact noKeyword ⟨number, keyword⟩
  · rintro ⟨forth, back⟩ run member run' member' same
    change spec.theme.nameOf run.category = spec.theme.nameOf run'.category at same
    by_cases first : ∃ number, run.category = .keyword number
    · by_cases second : ∃ number, run'.category = .keyword number
      · obtain ⟨number, first⟩ := first
        obtain ⟨number', second⟩ := second
        obtain ⟨group, _, found, _⟩ := exists_word_of_mem_render all member first
        obtain ⟨group', _, found', _⟩ := exists_word_of_mem_render all member' second
        rw [first, second, nameOf_theme all found, nameOf_theme all found'] at same
        have entry := name?_theme all found
        rw [same] at entry
        rw [first, second, named _ _ _ entry (name?_theme all found')]
      · exact absurd ⟨run, member, run', member', first, second, same⟩ forth
    · by_cases second : ∃ number, run'.category = .keyword number
      · exact absurd ⟨run', member', run, member, second, first, same.symm⟩ back
      · exact Theme.eq_of_nameOf_eq first second same

theorem exists_word_of_clashes (all : LexiconDraft.empty.AcceptsAll spec.calls)
    (clash : spec.theme.Clashes text other) :
    ∃ group ∈ spec.groups, ∃ word ∈ group.keywords,
      ⟨.plain, word.toList⟩ ∈ cut (clamp text).toList ∧
        (group.name = "default" ∨ group.name = "string" ∧
          ∃ literal ∈ cut (clamp other).toList, literal.kind = .literal) := by
  obtain ⟨run, member, run', member', ⟨number, keyword⟩, noKeyword, same⟩ := clash
  obtain ⟨group, word, found, listed, shown⟩ := exists_word_of_mem_render all member keyword
  rw [keyword, nameOf_theme all found] at same
  refine ⟨group, List.mem_of_getElem? found, word, listed, shown, ?_⟩
  cases category : run'.category with
  | plain =>
      rw [category] at same
      exact .inl same
  | literal =>
      have notPlain : run'.category ≠ .plain := by simp [category]
      obtain ⟨literal, there, kind⟩ := exists_mem_cut_of_mem_render member' notPlain
      rw [category] at same kind
      exact .inr ⟨same, literal, there, Piece.kind_of_category_eq_literal kind⟩
  | keyword number => exact absurd ⟨number, category⟩ noKeyword

/-- A word of a group and what the group is named like clash where both are shown. -/
theorem clashes_of_shown (all : LexiconDraft.empty.AcceptsAll spec.calls)
    (member : group ∈ spec.groups) (listed : word ∈ group.keywords)
    (shown : ⟨.plain, word.toList⟩ ∈ cut (clamp text).toList) {category : Category}
    (fixed : category = .plain ∧ group.name = "default" ∨
      category = .literal ∧ group.name = "string")
    (there : ∃ run ∈ spec.theme.render other, run.category = category) :
    spec.theme.Clashes text other := by
  obtain ⟨index, found⟩ := List.mem_iff_getElem?.mp member
  obtain ⟨number, _, known, _, name⟩ :=
    (isBuiltFrom_theme all).keyword index group word found listed
  obtain ⟨run, drawn, keyword⟩ := exists_mem_render_of_mem_cut spec.theme shown
  obtain ⟨run', drawn', rfl⟩ := there
  have here : run.category = .keyword number := by
    rw [keyword, Piece.category, String.ofList_toList, known]
  refine ⟨run, drawn, run', drawn', ⟨number, here⟩, ?_, ?_⟩
  · rcases fixed with ⟨plain, _⟩ | ⟨literal, _⟩
    · simp [plain]
    · simp [literal]
  · rw [here, name]
    rcases fixed with ⟨plain, same⟩ | ⟨literal, same⟩
    · rw [plain, same]
      rfl
    · rw [literal, same]
      rfl

theorem isWord_of_mem_keywords (all : LexiconDraft.empty.AcceptsAll spec.calls)
    (member : group ∈ spec.groups) (listed : word ∈ group.keywords) :
    Piece.IsWord ⟨.plain, word.toList⟩ := by
  have sound := (LexiconDraft.isKept_afterGroups spec.calls).sound
  obtain ⟨index, found⟩ := List.mem_iff_getElem?.mp member
  obtain ⟨number, _, known, _⟩ := (isBuiltFrom_theme all).keyword index group word found listed
  exact isMatchable_iff.mp
    (sound.matchable number word ((Lexicon.category_eq_keyword sound.indexed).mp known))

/-- No group can list a space. -/
theorem category_space (spec : ThemeSpec) :
    Piece.space.category spec.theme.lexicon = .plain := by
  have kept := LexiconDraft.isKept_afterGroups spec.calls
  apply (kept.isCoherent.unlisted " ").mpr
  intro number listed
  exact absurd (kept.sound.matchable number " " listed) (by decide)

/-- Behind a word there is room for what the group is named like. -/
theorem clashes_of_mark (all : LexiconDraft.empty.AcceptsAll spec.calls)
    (member : group ∈ spec.groups) (listed : word ∈ group.keywords) {mark : Piece}
    (formed : IsFormed mark) (notWord : ¬ mark.IsWord)
    (fixed : mark.category spec.theme.lexicon = .plain ∧ group.name = "default" ∨
      mark.category spec.theme.lexicon = .literal ∧ group.name = "string")
    (fits : Fits (word ++ String.ofList mark.chars)) :
    spec.theme.Clashes (word ++ String.ofList mark.chars) (word ++ String.ofList mark.chars) := by
  have isWord := isWord_of_mem_keywords all member listed
  have pieces : cut (clamp (word ++ String.ofList mark.chars)).toList =
      [⟨.plain, word.toList⟩, mark] := by
    rw [clamp_eq_self fits, String.toList_append, String.toList_ofList]
    exact cut_append_of_isWord isWord formed notWord
  apply clashes_of_shown all member listed ?_ fixed
  · apply exists_mem_render_of_mem_cut
    rw [pieces]
    exact List.mem_cons_of_mem _ List.mem_cons_self
  · rw [pieces]
    exact List.mem_cons_self

theorem exists_mem_render_of_isFormed (theme : Theme) {piece : Piece} (formed : IsFormed piece)
    (fits : Fits (String.ofList piece.chars)) :
    ∃ run ∈ theme.render (String.ofList piece.chars),
      run.category = piece.category theme.lexicon := by
  apply exists_mem_render_of_mem_cut
  rw [clamp_eq_self fits, String.toList_ofList, cut_eq_of_isCut (.singleton formed)]
  exact List.mem_singleton_self piece

theorem mem_cut_of_clamp_eq (all : LexiconDraft.empty.AcceptsAll spec.calls)
    (member : group ∈ spec.groups) (listed : word ∈ group.keywords) (alone : clamp text = word) :
    ⟨.plain, word.toList⟩ ∈ cut (clamp text).toList := by
  have isWord := isWord_of_mem_keywords all member listed
  rw [alone, cut_eq_of_isCut (.singleton (.inr (.inl isWord)))]
  exact List.mem_singleton_self _

theorem forall_tellsApart_iff (all : LexiconDraft.empty.AcceptsAll spec.calls) :
    (∀ text other, spec.theme.TellsApart text other) ↔
      ∀ group ∈ spec.groups, IsFixedName group.name → ∀ word ∈ group.keywords, ¬ Fits word := by
  constructor
  · intro apart group member fixed word listed fits
    have shown := mem_cut_of_clamp_eq all member listed (clamp_eq_self fits)
    rcases fixed with name | name
    · have there := exists_mem_render_of_isFormed spec.theme (.inl Piece.isSeparator_space)
        (by decide)
      apply ((tellsApart_iff all).mp (apart word _)).1
      exact clashes_of_shown all member listed shown (.inl ⟨category_space spec, name⟩) there
    · have there := exists_mem_render_of_isFormed spec.theme
        (.inr (.inr (.inr Piece.isOpen_lastQuote))) (by decide)
      apply ((tellsApart_iff all).mp (apart word _)).1
      exact clashes_of_shown all member listed shown (.inr ⟨rfl, name⟩) there
  · intro long text other
    have none : ∀ text other, ¬ spec.theme.Clashes text other := by
      intro text other clash
      obtain ⟨group, member, word, listed, shown, name⟩ := exists_word_of_clashes all clash
      exact long group member (name.imp id And.left) word listed (fits_of_mem_cut shown)
    exact (tellsApart_iff all).mpr ⟨none text other, none other text⟩

theorem forall_tellsApart_self_iff (all : LexiconDraft.empty.AcceptsAll spec.calls) :
    (∀ text, spec.theme.TellsApart text text) ↔
      ∀ group ∈ spec.groups, ∀ word ∈ group.keywords,
        (group.name = "default" → ¬ Fits word) ∧
          (group.name = "string" → ¬ Fits (word ++ "'")) := by
  constructor
  · intro apart group member word listed
    have none : ∀ text, ¬ spec.theme.Clashes text text :=
      fun text => ((tellsApart_iff all).mp (apart text)).1
    constructor
    · intro name fits
      by_cases room : Fits (word ++ " ")
      · exact none _ (clashes_of_mark all member listed (.inl Piece.isSeparator_space)
          (Piece.not_isWord_of_isSeparator Piece.isSeparator_space)
          (.inl ⟨category_space spec, name⟩) room)
      · -- the space is cut off and shown as plain text all the same
        have shown := mem_cut_of_clamp_eq all member listed (clamp_append_of_long fits rfl room)
        exact none _ (clashes_of_shown all member listed shown (.inl ⟨rfl, name⟩)
          (spec.theme.exists_plain_of_long room))
    · intro name fits
      exact none _ (clashes_of_mark all member listed (.inr (.inr (.inr Piece.isOpen_lastQuote)))
        (Piece.not_isWord_of_literal rfl) (.inr ⟨rfl, name⟩) fits)
  · intro room text
    have none : ¬ spec.theme.Clashes text text := by
      intro clash
      obtain ⟨group, member, word, listed, shown, name⟩ := exists_word_of_clashes all clash
      obtain ⟨noDefault, noString⟩ := room group member word listed
      rcases name with name | ⟨name, literal, there, kind⟩
      · exact noDefault name (fits_of_mem_cut shown)
      · apply noString name
        -- the word and the literal are two pieces of the same text
        have different : literal ≠ ⟨.plain, word.toList⟩ := by
          rintro rfl
          contradiction
        have bound := byteLength_add_le_of_mem_cut shown there different
        have formed := (isCut_cut (clamp text).toList).formed literal there
        have some : byteLength literal.chars ≠ 0 :=
          fun zero => formed.ne_nil (byteLength_eq_zero_iff.mp zero)
        have within := fits_clamp text
        have single : "'".utf8ByteSize = 1 := rfl
        rw [byteLength_toList, byteLength_toList] at bound
        unfold Fits at within ⊢
        rw [String.utf8ByteSize_append, single]
        omega
    exact (tellsApart_iff all).mpr ⟨none, none⟩

end Clashes

end ThemeSpec

/-- The groups of a theme have names of their own, but one of them may have the name of plain text
or of literals.  The records of any two texts still tell the categories of their runs unless such
a group has a word that fits into a text, and those of one text unless there is room in it for the
word and for what the group is named like. -/
theorem Theme.nameOf_categories {spec : ThemeSpec} {theme : Theme}
    (built : ofSpec spec = .ok theme) :
    theme.categories.map theme.nameOf =
        "default" :: "string" :: spec.groups.map GroupSpec.name ∧
      (spec.groups.map GroupSpec.name).Nodup ∧
      ((theme.categories.map theme.nameOf).Nodup ↔
        ∀ group ∈ spec.groups, ¬ IsFixedName group.name) ∧
      ((∀ text, theme.TellsApart text text) ↔
        ∀ group ∈ spec.groups, ∀ word ∈ group.keywords,
          (group.name = "default" → ¬ Fits word) ∧
            (group.name = "string" → ¬ Fits (word ++ "'"))) ∧
      ((∀ text other, theme.TellsApart text other) ↔
        ∀ group ∈ spec.groups, IsFixedName group.name → ∀ word ∈ group.keywords, ¬ Fits word) := by
  obtain ⟨all, rfl⟩ := ofSpec_eq_ok_iff.mp built
  exact ⟨ThemeSpec.map_nameOf_categories all, ThemeSpec.names_nodup all,
    ThemeSpec.nodup_nameOf_iff all, ThemeSpec.forall_tellsApart_self_iff all,
    ThemeSpec.forall_tellsApart_iff all⟩

/-- The only group is named like plain text. -/
def ThemeSpec.namedLikePlain (words : List String) : ThemeSpec :=
  ⟨⟨0, 0, 0⟩, ⟨255, 255, 255⟩, [⟨"default", ⟨255, 0, 0⟩, words⟩]⟩

/-- Without words the group has no runs that its name could confuse. -/
theorem Theme.nameOf_categories_of_wordless :
    ∃ theme, ofSpec (.namedLikePlain []) = .ok theme ∧
      ¬ (theme.categories.map theme.nameOf).Nodup ∧ ∀ text other, theme.TellsApart text other := by
  have fits : LexiconDraft.empty.Fits (ThemeSpec.namedLikePlain []).calls := by
    refine ⟨?_, by decide, by decide, by decide, ?_, by decide⟩
    · simp [LexiconDraft.empty]
    · simp [LexiconDraft.empty, Lexicon.empty]
  have built := ofSpec_eq_ok_iff.mpr ⟨fits.acceptsAll, rfl⟩
  obtain ⟨_, _, unique, _, apart⟩ := nameOf_categories built
  refine ⟨_, built, ?_, apart.mpr ?_⟩
  · rw [unique]
    simp [ThemeSpec.namedLikePlain, IsFixedName]
  · simp [ThemeSpec.namedLikePlain]

/-- With a word, records of one text have the same name for runs of two categories. -/
theorem Theme.not_nodup_nameOf :
    ∃ theme, ofSpec (.namedLikePlain ["class"]) = .ok theme ∧
      ¬ (theme.categories.map theme.nameOf).Nodup ∧
      (theme.render "class x").map Run.category = [.keyword 0, .plain] ∧
      (theme.records "class x").map Run.Record.category = ["default", "default"] := by
  have fits : LexiconDraft.empty.Fits (ThemeSpec.namedLikePlain ["class"]).calls := by
    refine ⟨?_, by decide, by decide, by decide, ?_, by decide⟩
    · simp [LexiconDraft.empty]
    · simp [LexiconDraft.empty, Lexicon.empty]
  have shown : ((ThemeSpec.namedLikePlain ["class"]).theme.render "class x").map Run.category =
      [.keyword 0, .plain] := by
    rw [render_eq_highlight _ (by decide), highlight, tokenize_eq_layout]
    cbv
  refine ⟨_, ofSpec_eq_ok_iff.mpr ⟨fits.acceptsAll, rfl⟩, ?_, shown, ?_⟩
  · rw [ThemeSpec.map_nameOf_categories fits.acceptsAll]
    simp [ThemeSpec.namedLikePlain]
  · rw [map_category_records, shown, List.map_cons, List.map_cons, List.map_nil,
      ThemeSpec.nameOf_theme fits.acceptsAll rfl]
    rfl

end Highlighter
