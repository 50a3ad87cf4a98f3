import Highlighter.Proofs.Lexicon.Verdict
import Highlighter.Proofs.Token.Limit

/-! # Words that occur

What a lexicon is asked for are the plain tokens of texts.  A word of a draft has to be one that
can be such a token, and a draft refuses as unmatchable what cannot.  Besides that it refuses the
separators, although each of them is a plain token of its own, as only what is made of word
characters counts as a word.  A word that does not fit into 32 bits is judged like any other but
occurs in no text. -/

set_option autoImplicit false

namespace Highlighter

open Alphabet Text

/-- Some text has a plain token that reads `word`. -/
def Occurs (word : String) : Prop :=
  ∃ text, ∃ token ∈ scan text, token.kind = .plain ∧ token.text text = word

def IsLoneSeparator (word : String) : Prop :=
  ∃ c, isSeparator c = true ∧ word = String.singleton c

variable {word name : String}

/-! ## Plain tokens -/

theorem isSeparator_piece_iff :
    Piece.IsSeparator ⟨.plain, word.toList⟩ ↔ IsLoneSeparator word := by
  have single : ∀ c, word.toList = [c] ↔ word = String.singleton c := by
    intro c
    rw [← String.toList_singleton, String.toList_inj]
  simp only [Piece.IsSeparator, IsLoneSeparator, single, true_and]

/-- A text that is one piece has one token, the text itself. -/
theorem occurs_of_isFormed (fits : Fits word) (formed : IsFormed ⟨.plain, word.toList⟩) :
    Occurs word := by
  have pieces := map_piece_tokenize word
  rw [cut_eq_of_isCut (.singleton formed), ← scan_eq_tokenize fits] at pieces
  obtain ⟨token, rest, tokens, reads, _⟩ := List.map_eq_cons_iff.mp pieces
  rw [Token.piece, Piece.mk.injEq] at reads
  refine ⟨word, token, ?_, reads.1, String.toList_injective reads.2⟩
  rw [tokens]
  exact List.mem_cons_self

theorem Occurs.fits (occurs : Occurs word) : Fits word := by
  obtain ⟨text, token, member, _, rfl⟩ := occurs
  exact fits_text_of_mem_scan member

theorem occurs_iff (fits : Fits word) :
    Occurs word ↔ isMatchable word = true ∨ IsLoneSeparator word := by
  rw [isMatchable_iff, ← isSeparator_piece_iff]
  constructor
  · rintro ⟨text, token, member, plain, reads⟩
    rw [text_of_mem_scan member] at reads
    have piece : token.piece (clamp text) = ⟨.plain, word.toList⟩ := by
      rw [Token.piece, plain, reads]
    rw [← piece]
    exact ((isTokenization_tokenize (clamp text)).plain token member plain).symm
  · rintro (word | separator)
    · exact occurs_of_isFormed fits (.inr (.inl word))
    · exact occurs_of_isFormed fits (.inl separator)

theorem IsLoneSeparator.isMatchable_eq_false (alone : IsLoneSeparator word) :
    isMatchable word = false := by
  obtain ⟨c, separator, rfl⟩ := alone
  rw [isMatchable_eq_false_iff]
  exact .inr ⟨c, by simp, .inl separator⟩

theorem isMatchable_eq_true_iff_occurs (fits : Fits word) :
    isMatchable word = true ↔ Occurs word ∧ ¬ IsLoneSeparator word := by
  rw [occurs_iff fits]
  constructor
  · intro matchable
    refine ⟨.inl matchable, ?_⟩
    intro alone
    rw [alone.isMatchable_eq_false] at matchable
    contradiction
  · rintro ⟨matchable | alone, notAlone⟩
    · exact matchable
    · exact absurd alone notAlone

/-- There are words that only lack a text with room for them. -/
theorem exists_not_isUnmatchable_of_long : ∃ word, ¬ IsUnmatchable word ∧ ¬ Fits word := by
  refine ⟨String.ofList (List.replicate UInt32.size 'a'), ?_, ?_⟩
  · rintro (empty | ⟨c, member, never⟩)
    · have none := congrArg String.toList empty
      rw [String.toList_ofList, String.toList_empty, List.replicate_eq_nil_iff] at none
      exact absurd none (by decide)
    · rw [String.toList_ofList, List.mem_replicate] at member
      rw [member.2] at never
      revert never
      decide
  · rw [Fits, ← byteLength_toList, String.toList_ofList, byteLength_replicate]
    decide

/-! ## Drafts -/

namespace LexiconDraft

theorem name?_empty (group : GroupId) : empty.lexicon.name? group ≠ some name := by
  simp [empty, Lexicon.empty, Lexicon.name?, Lexicon.group?]

theorem addGroup_of_isUnmatchable (name : String) (never : IsUnmatchable word) :
    addGroup name [word] empty = .error (.unmatchable word name) empty := by
  have split : [word] = [] ++ word :: [] := rfl
  have admits : empty.lexicon.Admits [] := Lexicon.admits_iff.mpr (by simp)
  apply isKept_empty.addGroup_of_verdict
  exact .blamed name?_empty (by decide) split admits (.unmatchable never)

theorem exists_addGroup_of_not_isUnmatchable (name : String) (matchable : ¬ IsUnmatchable word) :
    ∃ group next, addGroup name [word] empty = .ok group next := by
  have admits : empty.lexicon.Admits [word] := by
    rw [Lexicon.admits_iff]
    simp [matchable, empty, Lexicon.empty, Lexicon.words, Lexicon.group?]
  exact ⟨0, _, isKept_empty.addGroup_of_verdict (.accepted name?_empty rfl admits)⟩

theorem addGroup_eq_error_iff_isUnmatchable :
    addGroup name [word] empty = .error (.unmatchable word name) empty ↔ IsUnmatchable word := by
  constructor
  · intro refused
    by_contra matchable
    obtain ⟨group, next, added⟩ := exists_addGroup_of_not_isUnmatchable name matchable
    rw [refused] at added
    contradiction
  · exact addGroup_of_isUnmatchable name

/-- A new draft refuses a word that fits into a text as unmatchable if no text has a plain token that
reads it, and besides that if it is a separator.  Every separator is a plain token of some text, so
that these words are refused although they occur.  Every other word that occurs is accepted. -/
theorem addGroup_unmatchable_iff (name : String) (fits : Text.Fits word) :
    (addGroup name [word] empty = .error (.unmatchable word name) empty ↔
        ¬ Occurs word ∨ IsLoneSeparator word) ∧
      (IsLoneSeparator word → Occurs word) ∧
      ((∃ group next, addGroup name [word] empty = .ok group next) ↔
        Occurs word ∧ ¬ IsLoneSeparator word) := by
  have unmatchable : IsUnmatchable word ↔ ¬ Occurs word ∨ IsLoneSeparator word := by
    rw [← isMatchable_eq_false_iff, ← Bool.not_eq_true, isMatchable_eq_true_iff_occurs fits,
      not_and_or, not_not]
  refine ⟨?_, ?_, ?_⟩
  · rw [addGroup_eq_error_iff_isUnmatchable, unmatchable]
  · intro alone
    exact (occurs_iff fits).mpr (.inr alone)
  · rw [← isMatchable_eq_true_iff_occurs fits, isMatchable_eq_true_iff]
    constructor
    · rintro ⟨group, next, added⟩ never
      rw [addGroup_of_isUnmatchable name never] at added
      contradiction
    · exact exists_addGroup_of_not_isUnmatchable name

/-- The semicolon occurs and is refused, and the class keyword occurs and is accepted. -/
theorem addGroup_unmatchable_iff_of_separator :
    Text.Fits ";" ∧ Text.Fits "class" ∧ Occurs ";" ∧
      addGroup "marks" [";"] empty = .error (.unmatchable ";" "marks") empty ∧
      Occurs "class" ∧ ∃ group next, addGroup "marks" ["class"] empty = .ok group next := by
  have fits : Text.Fits ";" := by decide
  have fits' : Text.Fits "class" := by decide
  have alone : IsLoneSeparator ";" := ⟨';', by decide, rfl⟩
  have matchable : ¬ IsUnmatchable "class" := isMatchable_eq_true_iff.mp (by decide)
  obtain ⟨refused, occurs, _⟩ := addGroup_unmatchable_iff "marks" fits
  obtain ⟨_, _, accepted⟩ := addGroup_unmatchable_iff "marks" fits'
  have added := exists_addGroup_of_not_isUnmatchable "marks" matchable
  exact ⟨fits, fits', occurs alone, refused.mpr (.inr alone), (accepted.mp added).1, added⟩

/-- The full stop is refused as unmatchable, and it is the one token of the text that it makes.  Of
the words that do not fit into a text there is one that occurs in none and is accepted. -/
theorem not_addGroup_unmatchable_iff_not_occurs :
    (¬ ∀ name word, addGroup name [word] empty = .error (.unmatchable word name) empty ↔
        ¬ Occurs word) ∧
      addGroup "marks" ["."] empty = .error (.unmatchable "." "marks") empty ∧
      scan "." = [Token.plain 0 0] ∧ (Token.plain 0 0).text "." = "." ∧
      ∃ word, ¬ Occurs word ∧ ∃ group next, addGroup "marks" [word] empty = .ok group next := by
  have never : IsUnmatchable "." := .inr ⟨'.', by decide, by decide⟩
  have refused := addGroup_of_isUnmatchable "marks" never
  have tokens : scan "." = [Token.plain 0 0] := by
    rw [scan_eq_tokenize (by decide)]
    cbv
  have reads : (Token.plain 0 0).text "." = "." := by cbv
  obtain ⟨word, matchable, long⟩ := exists_not_isUnmatchable_of_long
  refine ⟨?_, refused, tokens, reads, word, fun occurs => long occurs.fits,
    exists_addGroup_of_not_isUnmatchable "marks" matchable⟩
  intro same
  apply (same "marks" ".").mp refused
  exact ⟨".", Token.plain 0 0, by rw [tokens]; exact List.mem_singleton_self _, rfl, reads⟩

end LexiconDraft

end Highlighter
