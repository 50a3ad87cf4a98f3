import Std.Data.HashMap
import Highlighter.Category

/-! # Lexicons

A lexicon is a list of named groups of words together with an index from each word to its group.
A text is looked up as a whole, case and all. -/

set_option autoImplicit false

namespace Highlighter

structure WordGroup where
  name : String
  words : List String
deriving DecidableEq, Repr, Inhabited

structure Lexicon where
  index : Std.HashMap String GroupId
  groups : Array WordGroup

namespace Lexicon

def empty : Lexicon := ⟨∅, #[]⟩

instance : Inhabited Lexicon := ⟨empty⟩

def category (lexicon : Lexicon) (text : String) : Category :=
  match lexicon.index[text]? with
  | some group => .keyword group
  | none => .plain

def groupCount (lexicon : Lexicon) : Nat := lexicon.groups.size

def wordCount (lexicon : Lexicon) : Nat := lexicon.index.size

def isEmpty (lexicon : Lexicon) : Bool := lexicon.index.isEmpty

def group? (lexicon : Lexicon) (group : GroupId) : Option WordGroup :=
  lexicon.groups[group.val]?

def name? (lexicon : Lexicon) (group : GroupId) : Option String :=
  (lexicon.group? group).map (·.name)

def words (lexicon : Lexicon) (group : GroupId) : List String :=
  match lexicon.group? group with
  | some found => found.words
  | none => []

def groupIds (lexicon : Lexicon) : List GroupId :=
  (List.range lexicon.groupCount).filterMap GroupId.ofIndex?

/-- The lexicon with one more group.  The words are taken as they are; that each is new and could
be met in a text is for the caller to see to.  A full lexicon stays as it is. -/
def append (lexicon : Lexicon) (name : String) (words : List String) : Lexicon :=
  match GroupId.ofIndex? lexicon.groupCount with
  | none => lexicon
  | some group =>
    ⟨words.foldl (fun index word => index.insert word group) lexicon.index,
      lexicon.groups.push ⟨name, words⟩⟩

def standard : Lexicon :=
  empty
    |>.append "blue" ["class"]
    |>.append "magenta" ["import", "from", "export"]
    |>.append "green" ["TestComponent", "Component"]

end Lexicon

end Highlighter
