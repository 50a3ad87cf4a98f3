import Mathlib
import Highlighter.Proofs.Run.Outline

/-! # Gaps between tokens

Tokens that come in the order of their text may leave out bytes anywhere.  A gap between two plain
tokens is taken into the entry of the first; every other gap is bridged when the runs are laid out.
Either way its bytes are shown as plain text, and all other bytes as what their token is. -/

set_option autoImplicit false

namespace Highlighter

open Text Entry

def ByteRange.Holds (range : ByteRange) (offset : Nat) : Prop :=
  range.first ≤ offset ∧ offset ≤ range.last

/-- Each token is a piece of `source` and starts after the end of the one before. -/
structure InScanOrder (source : String) (tokens : List Token) : Prop where
  ordered : Successive (· ≤ ·) 0 source.utf8ByteSize (tokens.map Token.range)
  boundaries : ∀ token ∈ tokens,
    IsBoundary source token.range.first ∧ IsBoundary source token.range.stop

structure IsFilling (source : String) (lexicon : Lexicon) (palette : Palette)
    (tokens : List Token) (runs : List Run) : Prop where
  tiles : Tiles 0 source.utf8ByteSize (runs.map Run.range)
  boundaries : ∀ run ∈ runs,
    IsBoundary source run.range.first ∧ IsBoundary source run.range.stop
  texts : ∀ run ∈ runs, run.text = run.range.text source
  whole : String.join (runs.map Run.text) = source
  /-- A byte of a token lies in a run of the category of that token. -/
  covered : ∀ token ∈ tokens, ∀ offset, token.range.Holds offset →
    ∃ run ∈ runs, run.range.Holds offset ∧ run.category = token.category source lexicon
  /-- A byte of no token lies in a plain run of the color of plain text. -/
  bridged : ∀ offset < source.utf8ByteSize, (∀ token ∈ tokens, ¬ token.range.Holds offset) →
    ∃ run ∈ runs, run.range.Holds offset ∧ run.category = .plain ∧ run.color = palette.plain
  /-- A token that is not plain is a run of its own. -/
  kept : ∀ token ∈ tokens, token.category source lexicon ≠ .plain →
    ∃ run ∈ runs, run.range = token.range ∧ run.category = token.category source lexicon
  colors : ∀ run ∈ runs, run.color = palette.color run.category

/-! ## Entries -/

/-- Every byte of the one is a byte of the other, and of the same category. -/
def Entry.Within (inner outer : Entry) : Prop :=
  outer.range.first ≤ inner.range.first ∧ inner.range.last ≤ outer.range.last ∧
    outer.category = inner.category

theorem Entry.within_self (entry : Entry) : entry.Within entry :=
  ⟨Nat.le_refl _, Nat.le_refl _, rfl⟩

theorem Entry.category_of_isPlain {entry : Entry} (plain : entry.isPlain = true) :
    entry.category = .plain := by
  simpa [isPlain] using plain

/-- An entry that takes in a later one takes in the gap between them and loses nothing. -/
theorem within_push {added newest : List Entry} {entry : Entry}
    (known : ∀ token ∈ added, ∃ outer ∈ newest, token.Within outer)
    (earlier : Successive (· ≤ ·) 0 entry.range.first (newest.reverse.map Entry.range))
    (nonempty : entry.range.first ≤ entry.range.last) :
    ∀ token ∈ added ++ [entry], ∃ outer ∈ push newest entry, token.Within outer := by
  intro token member
  rcases push_cases newest entry with ⟨last, before, rfl, lastPlain, plain, same⟩ | ⟨same, _⟩
  · rw [same]
    rw [List.reverse_cons, List.map_append, successive_append isForward_le] at earlier
    obtain ⟨_, _, _, lastNonempty, ends⟩ := earlier
    have ended : last.range.last + 1 ≤ entry.range.first := ends
    rcases List.mem_append.mp member with member | member
    · obtain ⟨outer, found, first, final, category⟩ := known token member
      rcases List.mem_cons.mp found with rfl | found
      · have longer : token.range.last ≤ entry.range.last := by omega
        rw [category_of_isPlain lastPlain] at category
        exact ⟨_, List.mem_cons_self, first, longer, category⟩
      · exact ⟨outer, List.mem_cons_of_mem _ found, first, final, category⟩
    · obtain rfl : token = entry := by simpa using member
      have first : last.range.first ≤ token.range.first := by omega
      exact ⟨_, List.mem_cons_self, first, Nat.le_refl _, (category_of_isPlain plain).symm⟩
  · rw [same]
    rcases List.mem_append.mp member with member | member
    · obtain ⟨outer, found, within⟩ := known token member
      exact ⟨outer, List.mem_cons_of_mem _ found, within⟩
    · obtain rfl : token = entry := by simpa using member
      exact ⟨token, List.mem_cons_self, token.within_self⟩

theorem within_pushAll {entries : List Entry} : ∀ {stop : Nat},
    Successive (· ≤ ·) 0 stop (entries.map Entry.range) →
      ∀ token ∈ entries, ∃ outer ∈ pushAll [] entries, token.Within outer := by
  induction entries using List.reverseRecOn with
  | nil =>
      intro stop _ token member
      simp at member
  | append_singleton first entry ih =>
      intro stop ordered
      rw [List.map_append, successive_append isForward_le] at ordered
      obtain ⟨middle, early, here, nonempty, _⟩ := ordered
      have reached := (successive_pushAll_nil isForward_le early).extend isForward_le here
      rw [pushAll, List.foldl_append]
      exact within_push (ih early) reached nonempty

/-! ## Runs laid out with bridges -/

section Spread

variable {source : String} {palette : Palette} {entries : List Entry} {entry : Entry} {run : Run}

theorem tiles_gap {first stop : Nat} (le : first ≤ stop) :
    Tiles first stop ((gap source palette first stop).map Run.range) := by
  rw [gap]
  split
  · next some =>
    have last : stop - 1 + 1 = stop := by omega
    exact ⟨rfl, Nat.le_sub_one_of_lt some, last⟩
  · next none => exact Nat.le_antisymm le (Nat.not_lt.mp none)

theorem isBoundary_gap {first stop : Nat} (start : IsBoundary source first)
    (final : IsBoundary source stop) : ∀ run ∈ gap source palette first stop,
      IsBoundary source run.range.first ∧ IsBoundary source run.range.stop := by
  intro run member
  obtain ⟨some, rfl⟩ := mem_gap member
  have last : stop - 1 + 1 = stop := by omega
  refine ⟨start, ?_⟩
  change IsBoundary source (stop - 1 + 1)
  rw [last]
  exact final

theorem tiles_spread : ∀ {next : Nat},
    Successive (· ≤ ·) next source.utf8ByteSize (entries.map Entry.range) →
      Tiles next source.utf8ByteSize ((spread source palette next entries).map Run.range) := by
  induction entries with
  | nil =>
      intro next ordered
      exact tiles_gap ordered
  | cons entry rest ih =>
      intro next ordered
      obtain ⟨here, nonempty, later⟩ := ordered
      rw [spread, List.map_append, tiles_append]
      exact ⟨entry.range.first, tiles_gap here, rfl, nonempty, ih later⟩

theorem isBoundary_spread : ∀ {next : Nat}, IsBoundary source next →
    (∀ entry ∈ entries,
      IsBoundary source entry.range.first ∧ IsBoundary source entry.range.stop) →
    ∀ run ∈ spread source palette next entries,
      IsBoundary source run.range.first ∧ IsBoundary source run.range.stop := by
  induction entries with
  | nil =>
      intro next here _
      exact isBoundary_gap here (isBoundary_utf8ByteSize source)
  | cons entry rest ih =>
      intro next here boundaries run member
      obtain ⟨⟨first, stop⟩, others⟩ := List.forall_mem_cons.mp boundaries
      rw [spread, List.mem_append, List.mem_cons] at member
      rcases member with bridge | rfl | later
      · exact isBoundary_gap here first run bridge
      · exact ⟨first, stop⟩
      · exact ih stop others run later

theorem mem_spread : ∀ {next : Nat}, run ∈ spread source palette next entries →
    ∃ entry, run = entry.run source palette ∧ (entry ∈ entries ∨ entry.category = .plain) := by
  induction entries with
  | nil =>
      intro next member
      exact ⟨_, (mem_gap member).2, .inr rfl⟩
  | cons first rest ih =>
      intro next member
      rw [spread, List.mem_append, List.mem_cons] at member
      rcases member with bridge | rfl | later
      · exact ⟨_, (mem_gap bridge).2, .inr rfl⟩
      · exact ⟨first, rfl, .inl List.mem_cons_self⟩
      · obtain ⟨entry, same, known | plain⟩ := ih later
        · exact ⟨entry, same, .inl (List.mem_cons_of_mem _ known)⟩
        · exact ⟨entry, same, .inr plain⟩

theorem run_mem_spread : ∀ {next : Nat}, entry ∈ entries →
    entry.run source palette ∈ spread source palette next entries := by
  induction entries with
  | nil =>
      intro next member
      simp at member
  | cons first rest ih =>
      intro next member
      rw [spread]
      apply List.mem_append_right
      rcases List.mem_cons.mp member with rfl | member
      · exact List.mem_cons_self
      · exact List.mem_cons_of_mem _ (ih member)

end Spread

theorem Tiles.exists_holds {ranges : List ByteRange} {stop offset : Nat} : ∀ {start : Nat},
    Tiles start stop ranges → start ≤ offset → offset < stop →
      ∃ range ∈ ranges, range.Holds offset := by
  induction ranges with
  | nil =>
      intro start tiles after before
      have ended : start = stop := tiles
      omega
  | cons range rest ih =>
      intro start tiles after before
      obtain ⟨first, _, later⟩ := tiles
      by_cases here : offset ≤ range.last
      · exact ⟨range, List.mem_cons_self, by omega, here⟩
      · obtain ⟨other, member, holds⟩ := ih later (Nat.lt_of_not_le here) before
        exact ⟨other, List.mem_cons_of_mem _ member, holds⟩

/-! ## The filled text -/

section Filling

variable {source : String} {lexicon : Lexicon} {palette : Palette} {tokens : List Token}
  {entries : List Entry}

theorem isFilling_spread
    (ordered : Successive (· ≤ ·) 0 source.utf8ByteSize (entries.map Entry.range))
    (boundaries : ∀ entry ∈ entries,
      IsBoundary source entry.range.first ∧ IsBoundary source entry.range.stop)
    (within : ∀ token ∈ tokens.map (Token.entry source lexicon),
      ∃ outer ∈ entries, token.Within outer)
    (same : marked entries = marked (tokens.map (Token.entry source lexicon))) :
    IsFilling source lexicon palette tokens (spread source palette 0 entries) := by
  have tiles : Tiles 0 source.utf8ByteSize
      ((spread source palette 0 entries).map Run.range) := tiles_spread ordered
  have bounded : ∀ run ∈ spread source palette 0 entries,
      IsBoundary source run.range.first ∧ IsBoundary source run.range.stop :=
    isBoundary_spread (isBoundary_zero source) boundaries
  have texts : ∀ run ∈ spread source palette 0 entries, run.text = run.range.text source := by
    intro run member
    obtain ⟨entry, rfl, _⟩ := mem_spread member
    rfl
  constructor
  case tiles => exact tiles
  case boundaries => exact bounded
  case texts => exact texts
  case whole => exact join_of_tiles tiles (fun run member => (bounded run member).2) texts
  case covered =>
    intro token member offset holds
    obtain ⟨outer, known, first, last, category⟩ := within _ (List.mem_map_of_mem member)
    have inside : outer.range.Holds offset :=
      ⟨Nat.le_trans first holds.1, Nat.le_trans holds.2 last⟩
    exact ⟨outer.run source palette, run_mem_spread known, inside, category⟩
  case bridged =>
    intro offset before uncovered
    obtain ⟨range, shown, holds⟩ := tiles.exists_holds (Nat.zero_le offset) before
    obtain ⟨run, member, rfl⟩ := List.mem_map.mp shown
    obtain ⟨entry, rfl, origin⟩ := mem_spread member
    -- an entry that is not plain would be one of the tokens and hold the byte
    have plain : entry.category = .plain := by
      rcases origin with known | plain
      · by_contra notPlain
        have isMarked : entry ∈ marked entries := by
          rw [marked, List.mem_filter]
          exact ⟨known, by simpa [isPlain] using notPlain⟩
        rw [same, marked, List.mem_filter] at isMarked
        obtain ⟨token, given, rfl⟩ := List.mem_map.mp isMarked.1
        exact uncovered token given holds
      · exact plain
    refine ⟨_, member, holds, plain, ?_⟩
    rw [Entry.run, plain]
    rfl
  case kept =>
    intro token member notPlain
    have isMarked : token.entry source lexicon ∈ marked entries := by
      rw [same, marked, List.mem_filter]
      exact ⟨List.mem_map_of_mem member, by simpa [isPlain, Token.entry] using notPlain⟩
    exact ⟨_, run_mem_spread (List.mem_of_mem_filter isMarked), rfl, rfl⟩
  case colors =>
    intro run member
    obtain ⟨entry, rfl, _⟩ := mem_spread member
    rfl

/-- The runs of tokens in scan order show the whole text, with nothing but plain text where there
is no token. -/
theorem isFilling_runs (lexicon : Lexicon) (palette : Palette)
    (scanned : InScanOrder source tokens) :
    IsFilling source lexicon palette tokens
      (((Outline.start source lexicon).addAll tokens).runs palette) := by
  obtain ⟨sameSource, _⟩ := Outline.addAll_fixed tokens (Outline.start source lexicon)
  have newest := Outline.newest_addAll tokens (Outline.start source lexicon)
  have ordered : Successive (· ≤ ·) 0 source.utf8ByteSize
      ((tokens.map (Token.entry source lexicon)).map Entry.range) := by
    rw [List.map_map]
    exact scanned.ordered
  have gathers := Gathers.nil.pushAll (tokens.map (Token.entry source lexicon))
  have given : ∀ token ∈ tokens.map (Token.entry source lexicon),
      IsBoundary source token.range.first ∧ IsBoundary source token.range.stop := by
    intro entry member
    obtain ⟨token, known, rfl⟩ := List.mem_map.mp member
    exact scanned.boundaries token known
  rw [Outline.runs_eq_spread, sameSource, Outline.entries, newest]
  apply isFilling_spread (successive_pushAll_nil isForward_le ordered)
  · intro entry member
    exact gathers.isBoundary given entry (List.mem_reverse.mp member)
  · intro token member
    obtain ⟨outer, known, within⟩ := within_pushAll ordered token member
    exact ⟨outer, List.mem_reverse.mpr known, within⟩
  · exact gathers.marked

end Filling

/-- Bytes are left out at both ends, between plain tokens and around others. -/
theorem isFilling_runs_of_sparse_tokens : ∃ tokens runs,
    tokens = [Token.plain 3 3, .plain 5 5, .literal 7 9, .plain 11 12] ∧
      runs = ((Outline.start "é a b 'c' fn!" (.append .empty "word" ["fn"])).addAll tokens).runs
        .standard ∧
      InScanOrder "é a b 'c' fn!" tokens ∧
      IsFilling "é a b 'c' fn!" (.append .empty "word" ["fn"]) .standard tokens runs ∧
      runs.map (fun run => (run.range, run.category)) =
        [(⟨0, 2⟩, .plain), (⟨3, 5⟩, .plain), (⟨6, 6⟩, .plain), (⟨7, 9⟩, .literal),
          (⟨10, 10⟩, .plain), (⟨11, 12⟩, .keyword 0), (⟨13, 13⟩, .plain)] := by
  have scanned : InScanOrder "é a b 'c' fn!"
      [Token.plain 3 3, .plain 5 5, .literal 7 9, .plain 11 12] := by
    refine ⟨?_, ?_⟩
    · simp only [Successive, Token.plain, Token.literal, ByteRange.stop, List.map_cons,
        List.map_nil]
      decide
    · simp only [IsBoundary, Token.plain, Token.literal, ByteRange.stop]
      decide
  refine ⟨_, _, rfl, rfl, scanned, isFilling_runs _ _ scanned, ?_⟩
  cbv

end Highlighter
