import Std.Data.HashSet
import Highlighter.Lexicon.Basic
import Highlighter.Text.Quoted
import Highlighter.Token.Alphabet

/-! # Drafts of lexicons

A draft takes one group at a time.  It refuses a group that would make the lexicon ambiguous or
that holds a word no text can show, and is then left as it was. -/

set_option autoImplicit false

namespace Highlighter

inductive GroupFault where
  /-- The word is listed already, by the group named first or earlier in the same list. -/
  | wordTaken (word first second : String)
  | nameTaken (name : String)
  | unmatchable (word group : String)
  | tooMany
deriving DecidableEq, Repr

def GroupFault.message : GroupFault → String
  | wordTaken word first second =>
    s!"keyword `{word}` is listed in both `{first}` and `{second}`"
  | nameTaken name => s!"keyword group `{name}` is defined twice"
  | unmatchable word group =>
    s!"keyword `{Text.quote word}` in group `{group}` can never match: " ++
      "keywords must be non-empty and contain no whitespace, quotes or symbols"
  | tooMany => s!"too many keyword groups (limit {groupLimit})"

def isMatchable (word : String) : Bool :=
  !word.isEmpty && !word.toList.any fun c => Alphabet.isSeparator c || Alphabet.isQuote c

structure LexiconDraft where
  lexicon : Lexicon
  names : Std.HashSet String

namespace LexiconDraft

def empty : LexiconDraft := ⟨.empty, ∅⟩

instance : Inhabited LexiconDraft := ⟨empty⟩

/-- The name of the group that lists `word` already: a group of the lexicon, or else the new
group itself if `word` is among the words `seen` so far. -/
def owner? (lexicon : Lexicon) (name : String) (seen : Std.HashSet String) (word : String) :
    Option String :=
  match lexicon.index[word]? with
  | some group => lexicon.name? group
  | none => if seen.contains word then some name else none

def wordFault? (lexicon : Lexicon) (name : String) (seen : Std.HashSet String) :
    List String → Option GroupFault
  | [] => none
  | word :: rest =>
    if isMatchable word then
      match owner? lexicon name seen word with
      | some first => some (.wordTaken word first name)
      | none => wordFault? lexicon name (seen.insert word) rest
    else some (.unmatchable word name)

def addGroup (name : String) (words : List String) : EStateM GroupFault LexiconDraft GroupId :=
  fun draft =>
    if draft.names.contains name then .error (.nameTaken name) draft
    else match GroupId.ofIndex? draft.lexicon.groupCount with
      | none => .error .tooMany draft
      | some group => match wordFault? draft.lexicon name ∅ words with
        | some fault => .error fault draft
        | none => .ok group ⟨draft.lexicon.append name words, draft.names.insert name⟩

end LexiconDraft

end Highlighter
