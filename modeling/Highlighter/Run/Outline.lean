import Highlighter.Run.Basic

/-! # From tokens to runs

An outline gives each token its category and joins a plain token to a plain entry directly before
it.  Its entries become runs, and bytes that no entry covers are bridged by plain runs, so that
the runs show the whole text. -/

set_option autoImplicit false

namespace Highlighter

structure Entry where
  range : ByteRange
  category : Category
deriving DecidableEq, Repr, Inhabited

/-- The entries so far, the latest of them first. -/
structure Outline where
  source : String
  lexicon : Lexicon
  newest : List Entry

namespace Outline

def start (source : String) (lexicon : Lexicon) : Outline := ⟨source, lexicon, []⟩

def entries (outline : Outline) : List Entry := outline.newest.reverse

def categoryOf (outline : Outline) (token : Token) : Category :=
  match token.kind with
  | .literal => .literal
  | .plain => outline.lexicon.category (token.text outline.source)

def addEntry (range : ByteRange) (category : Category) : List Entry → List Entry
  | [] => [⟨range, category⟩]
  | last :: before =>
    if category = .plain ∧ last.category = .plain then
      ⟨last.range.endingAt range.last, .plain⟩ :: before
    else ⟨range, category⟩ :: last :: before

def add (outline : Outline) (token : Token) : Outline :=
  { outline with newest := addEntry token.range (outline.categoryOf token) outline.newest }

def addAll (outline : Outline) (tokens : List Token) : Outline :=
  tokens.foldl add outline

/-- Runs laid out so far, the latest of them first, and the offset after the latest. -/
structure Layout where
  next : Nat
  newest : List Run

/-- A plain run over the bytes from `first` up to `stop`; `finish` saturates its offsets. -/
def bridge (source : String) (palette : Palette) (first stop : Nat) : Run :=
  let range : ByteRange := ⟨first, stop - 1⟩
  ⟨range.text source, range, .plain, palette.plain⟩

namespace Layout

def fill (source : String) (palette : Palette) (layout : Layout) (stop : Nat) : Layout :=
  if layout.next < stop then ⟨stop, bridge source palette layout.next stop :: layout.newest⟩
  else layout

def place (source : String) (palette : Palette) (layout : Layout) (entry : Entry) : Layout :=
  let run : Run :=
    ⟨entry.range.text source, entry.range, entry.category, palette.color entry.category⟩
  ⟨entry.range.stop, run :: (layout.fill source palette entry.range.first).newest⟩

end Layout

def runs (outline : Outline) (palette : Palette) : List Run :=
  let placed := outline.entries.foldl (Layout.place outline.source palette) ⟨0, []⟩
  (placed.fill outline.source palette outline.source.utf8ByteSize).newest.reverse

end Outline

def ByteRange.saturate (range : ByteRange) : ByteRange :=
  ⟨min range.first (UInt32.size - 1), min range.last (UInt32.size - 1)⟩

def Run.saturate (run : Run) : Run := { run with range := run.range.saturate }

/-- The runs with offsets of 32 bits.  Those of entries have no others, but the bridge over the end
of a long text has. -/
def Outline.finish (outline : Outline) (palette : Palette) : List Run :=
  (outline.runs palette).map Run.saturate

end Highlighter
