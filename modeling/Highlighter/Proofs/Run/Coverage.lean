import Mathlib
import Highlighter.Proofs.Run.Gaps
import Highlighter.Proofs.Run.Limit

/-! # Tokens in any order

An outline may be given tokens that overlap, come twice or come in an order other than that of the
text.  The runs then overlap too, but they leave no byte out.  Each entry is a run, and the bytes
from the end of one entry up to the start of the next, if there are any, are bridged.  An entry that
starts before the one before it ends has no bridge in front, and what lies behind it is covered by
what comes later.

So it is with texts of any length.  The offsets of tokens and entries have 32 bits, and those of a
bridge at the end of a long text are cut down to these; its text is still that of the whole gap. -/

set_option autoImplicit false

namespace Highlighter

open Entry Text

/-- The token is at least one byte long, has offsets of 32 bits and can be cut out of `source`. -/
structure Token.IsSliceOf (source : String) (token : Token) : Prop where
  nonempty : token.range.first ≤ token.range.last
  within : token.range.last < UInt32.size
  first : IsBoundary source token.range.first
  stop : IsBoundary source token.range.stop

/-- A plain token is joined to a plain entry only if it does not end before the entry starts. -/
def JoinsForward (source : String) (lexicon : Lexicon) (tokens : List Token) : Prop :=
  ∀ before token after, tokens = before ++ token :: after →
    token.category source lexicon = .plain →
      ∀ last ∈ ((Outline.start source lexicon).addAll before).entries.getLast?,
        last.category = .plain → last.range.first ≤ token.range.last

/-- Where the first of the entries starts, or where the text ends if there is none. -/
def startOf (source : String) (entries : List Entry) : Nat :=
  (entries.head?.map fun entry => entry.range.first).getD source.utf8ByteSize

/-- Each entry is a run at the place of the entry.  Any other run is a bridge, whose place is after
what is before it, from `next` on, and before the next entry or the end of the text.  It shows the
text of its place and has the offsets of its place as far as 32 bits reach. -/
inductive IsBridged (source : String) (palette : Palette) :
    Nat → List Entry → List ByteRange → List Run → Prop
  | none {next : Nat} : IsBridged source palette next [] [] []
  | entry {next : Nat} {entry : Entry} {entries : List Entry} {places : List ByteRange}
      {runs : List Run} (later : IsBridged source palette entry.range.stop entries places runs) :
      IsBridged source palette next (entry :: entries) (entry.range :: places)
        (⟨entry.range.text source, entry.range, entry.category, palette.color entry.category⟩ ::
          runs)
  | bridge {next : Nat} {place : ByteRange} {entries : List Entry} {places : List ByteRange}
      {runs : List Run} (after : next ≤ place.first) (nonempty : place.first ≤ place.last)
      (before : place.last < startOf source entries)
      (later : IsBridged source palette place.stop entries places runs) :
      IsBridged source palette next entries (place :: places)
        (⟨place.text source, place.saturate, .plain, palette.plain⟩ :: runs)

/-- What the runs of any entries have to be like, which show the bytes at `places`. -/
structure IsCovering (source : String) (palette : Palette) (entries : List Entry)
    (places : List ByteRange) (runs : List Run) : Prop where
  bridged : IsBridged source palette 0 entries places runs
  /-- The text of a run can be cut out. -/
  slices : ∀ place ∈ places, place.first ≤ place.last ∧ IsBoundary source place.first ∧
    IsBoundary source place.stop
  /-- No byte is left out. -/
  covered : ∀ offset < source.utf8ByteSize, ∃ place ∈ places, place.Holds offset
  /-- In a text that fits, the offsets of every run are those of its place. -/
  placed : Fits source → runs.map Run.range = places

variable {source : String} {lexicon : Lexicon} {palette : Palette} {tokens before : List Token}
  {token : Token} {entries : List Entry} {places : List ByteRange} {runs : List Run}

/-! ## Entries -/

theorem Outline.entries_addAll (source : String) (lexicon : Lexicon) (tokens : List Token) :
    ((start source lexicon).addAll tokens).entries =
      (pushAll [] (tokens.map (Token.entry source lexicon))).reverse := by
  rw [entries, newest_addAll]
  rfl

theorem apart_entries (source : String) (lexicon : Lexicon) (tokens : List Token) :
    Apart ((Outline.start source lexicon).addAll tokens).entries := by
  rw [Outline.entries_addAll]
  exact (Gathers.nil.pushAll _).apart

/-- A joined entry ends where the added one ends, and that is not before its own start. -/
theorem nonempty_push {newest : List Entry} {entry : Entry}
    (known : ∀ other ∈ newest, other.range.first ≤ other.range.last)
    (nonempty : entry.range.first ≤ entry.range.last)
    (joins : ∀ last ∈ newest.head?, last.isPlain = true → entry.isPlain = true →
      last.range.first ≤ entry.range.last) :
    ∀ other ∈ push newest entry, other.range.first ≤ other.range.last := by
  rcases push_cases newest entry with ⟨last, before, rfl, lastPlain, plain, same⟩ | ⟨same, _⟩
  · rw [same]
    exact List.forall_mem_cons.mpr
      ⟨joins last rfl lastPlain plain, (List.forall_mem_cons.mp known).2⟩
  · rw [same]
    exact List.forall_mem_cons.mpr ⟨nonempty, known⟩

theorem JoinsForward.of_concat (forward : JoinsForward source lexicon (before ++ [token])) :
    JoinsForward source lexicon before := by
  rintro earlier other after rfl
  exact forward earlier other (after ++ [token]) (by simp)

theorem nonempty_pushAll : (∀ token ∈ tokens, token.IsSliceOf source) →
    JoinsForward source lexicon tokens →
      ∀ entry ∈ pushAll [] (tokens.map (Token.entry source lexicon)),
        entry.range.first ≤ entry.range.last := by
  induction tokens using List.reverseRecOn with
  | nil =>
      intro _ _ entry member
      simp [pushAll] at member
  | append_singleton before token ih =>
      intro slices forward
      obtain ⟨early, here⟩ := List.forall_mem_append.mp slices
      have joins := forward before token [] rfl
      rw [Outline.entries_addAll, List.getLast?_reverse] at joins
      rw [List.map_append, pushAll, List.foldl_append]
      apply nonempty_push (ih early forward.of_concat)
      · exact (here token (List.mem_singleton_self token)).nonempty
      · intro last isLast lastPlain plain
        exact joins (category_of_isPlain plain) last isLast (category_of_isPlain lastPlain)

theorem isBoundary_entries (lexicon : Lexicon) (slices : ∀ token ∈ tokens, token.IsSliceOf source) :
    ∀ entry ∈ ((Outline.start source lexicon).addAll tokens).entries,
      IsBoundary source entry.range.first ∧ IsBoundary source entry.range.stop := by
  intro entry member
  rw [Outline.entries_addAll, List.mem_reverse] at member
  refine (Gathers.nil.pushAll _).isBoundary ?_ entry member
  intro added given
  obtain ⟨token, known, rfl⟩ := List.mem_map.mp given
  exact ⟨(slices token known).first, (slices token known).stop⟩

/-- The offsets of an entry are offsets of tokens. -/
theorem saturate_entries (lexicon : Lexicon) (slices : ∀ token ∈ tokens, token.IsSliceOf source)
    (forward : JoinsForward source lexicon tokens) :
    ∀ entry ∈ ((Outline.start source lexicon).addAll tokens).entries,
      entry.range.first ≤ entry.range.last ∧ entry.range.saturate = entry.range := by
  intro entry member
  rw [Outline.entries_addAll, List.mem_reverse] at member
  have nonempty := nonempty_pushAll slices forward entry member
  obtain ⟨_, added, given, stop⟩ := (Gathers.nil.pushAll _).borders entry member
  obtain ⟨token, known, rfl⟩ := List.mem_map.mp given
  have within : entry.range.last < UInt32.size := by
    rw [Nat.succ.inj stop]
    exact (slices token known).within
  exact ⟨nonempty, ByteRange.saturate_eq_self nonempty within⟩

/-! ## Runs -/

theorem IsBridged.gap_append {next : Nat}
    (later : ∀ start, IsBridged source palette start entries places runs) :
    IsBridged source palette next entries
      ((gap source palette next (startOf source entries)).map Run.range ++ places)
      ((gap source palette next (startOf source entries)).map Run.saturate ++ runs) := by
  rw [gap]
  split
  · next some =>
    exact .bridge (Nat.le_refl next) (Nat.le_sub_one_of_lt some)
      (Nat.sub_one_lt_of_lt some) (later _)
  · exact later next

theorem isBridged_spread : (∀ entry ∈ entries, entry.range.saturate = entry.range) →
    ∀ {next : Nat}, IsBridged source palette next entries
      ((spread source palette next entries).map Run.range)
      ((spread source palette next entries).map Run.saturate) := by
  induction entries with
  | nil =>
      intro _ next
      have bridged : IsBridged source palette next []
          ((gap source palette next _).map Run.range ++ [])
          ((gap source palette next _).map Run.saturate ++ []) := .gap_append fun _ => .none
      rw [List.append_nil, List.append_nil] at bridged
      exact bridged
  | cons entry rest ih =>
      intro known next
      obtain ⟨here, others⟩ := List.forall_mem_cons.mp known
      have same : (entry.run source palette).saturate = entry.run source palette := by
        rw [Run.saturate, Entry.run, here]
      rw [spread, List.map_append, List.map_append, List.map_cons, List.map_cons, same]
      exact .gap_append fun _ => .entry (ih others)

theorem IsBridged.nonempty {next : Nat}
    (bridged : IsBridged source palette next entries places runs) :
    (∀ entry ∈ entries, entry.range.first ≤ entry.range.last) →
      ∀ place ∈ places, place.first ≤ place.last := by
  induction bridged with
  | none => simp
  | entry later ih =>
      intro known
      obtain ⟨here, others⟩ := List.forall_mem_cons.mp known
      exact List.forall_mem_cons.mpr ⟨here, ih others⟩
  | bridge after nonempty before later ih =>
      intro known
      exact List.forall_mem_cons.mpr ⟨nonempty, ih known⟩

theorem map_range_saturate (nonempty : ∀ run ∈ runs, run.range.first ≤ run.range.last)
    (within : ∀ run ∈ runs, run.range.last < UInt32.size) :
    (runs.map Run.saturate).map Run.range = runs.map Run.range := by
  rw [List.map_map]
  apply List.map_congr_left
  intro run member
  rw [Function.comp_apply, Run.saturate_eq_self (nonempty run member) (within run member)]

/-- Whatever the entries are, every byte from `next` on is in a bridge or in an entry to come. -/
theorem exists_holds_spread {offset : Nat} (inside : offset < source.utf8ByteSize) :
    ∀ {next : Nat}, next ≤ offset →
      ∃ run ∈ spread source palette next entries, run.range.Holds offset := by
  induction entries with
  | nil =>
      intro next reached
      have some : next < source.utf8ByteSize := Nat.lt_of_le_of_lt reached inside
      rw [spread, gap, if_pos some]
      exact ⟨_, List.mem_singleton_self _, reached, Nat.le_sub_one_of_lt inside⟩
  | cons entry rest ih =>
      intro next reached
      rw [spread]
      by_cases before : offset < entry.range.first
      · have some : next < entry.range.first := Nat.lt_of_le_of_lt reached before
        rw [gap, if_pos some]
        exact ⟨_, List.mem_cons_self, reached, Nat.le_sub_one_of_lt before⟩
      · by_cases here : offset ≤ entry.range.last
        · exact ⟨_, List.mem_append_right _ List.mem_cons_self, Nat.le_of_not_lt before, here⟩
        · obtain ⟨run, member, holds⟩ := ih (Nat.lt_of_not_le here)
          exact ⟨run, List.mem_append_right _ (List.mem_cons_of_mem _ member), holds⟩

/-- Tokens may come in any order.  No two neighbouring entries are plain at any time, the runs are
the entries with bridges in what is left free between them, and every byte is in some run. -/
theorem isCovering_finish (lexicon : Lexicon) (palette : Palette)
    (slices : ∀ token ∈ tokens, token.IsSliceOf source)
    (forward : JoinsForward source lexicon tokens) :
    (∀ before after, tokens = before ++ after →
        Apart ((Outline.start source lexicon).addAll before).entries) ∧
      ∃ places, IsCovering source palette
        ((Outline.start source lexicon).addAll tokens).entries places
        (((Outline.start source lexicon).addAll tokens).finish palette) := by
  refine ⟨fun before _ _ => apart_entries source lexicon before, ?_⟩
  have known := saturate_entries lexicon slices forward
  have boundaries := isBoundary_entries lexicon slices
  obtain ⟨sameSource, _⟩ := Outline.addAll_fixed tokens (Outline.start source lexicon)
  rw [Outline.finish, Outline.runs_eq_spread, sameSource]
  have bridged : IsBridged source palette 0
      ((Outline.start source lexicon).addAll tokens).entries _ _ :=
    isBridged_spread fun entry member => (known entry member).2
  have nonempty := bridged.nonempty fun entry member => (known entry member).1
  have bounded := @isBoundary_spread source palette _ _ (isBoundary_zero source) boundaries
  refine ⟨_, bridged, ?_, ?_, ?_⟩
  · intro place member
    obtain ⟨run, shown, rfl⟩ := List.mem_map.mp member
    exact ⟨nonempty _ member, bounded run shown⟩
  · intro offset inside
    obtain ⟨run, shown, holds⟩ := exists_holds_spread inside (Nat.zero_le _)
    exact ⟨run.range, List.mem_map_of_mem shown, holds⟩
  · intro fits
    apply map_range_saturate
    · intro run shown
      exact nonempty _ (List.mem_map_of_mem shown)
    · intro run shown
      exact Nat.lt_of_lt_of_le (bounded run shown).2.le (Nat.le_of_lt fits)

/-- The literal comes first and once more at the end, and the fourth token makes the entry of the
third shorter. -/
theorem isCovering_finish_of_disorder : ∃ tokens outline places,
    tokens = [Token.literal 3 5, .plain 7 8, .plain 0 6, .plain 0 1, .literal 3 5] ∧
      outline = (Outline.start "é 'c' de" (.append .empty "word" ["de"])).addAll tokens ∧
      (∀ token ∈ tokens, token.IsSliceOf "é 'c' de") ∧
      JoinsForward "é 'c' de" (.append .empty "word" ["de"]) tokens ∧
      IsCovering "é 'c' de" .standard outline.entries places (outline.finish .standard) ∧
      (outline.finish .standard).map (fun run => (run.range, run.category)) =
        [(⟨0, 2⟩, .plain), (⟨3, 5⟩, .literal), (⟨6, 6⟩, .plain), (⟨7, 8⟩, .keyword 0),
          (⟨0, 1⟩, .plain), (⟨2, 2⟩, .plain), (⟨3, 5⟩, .literal), (⟨6, 8⟩, .plain)] := by
  have slices : ∀ token ∈ [Token.literal 3 5, .plain 7 8, .plain 0 6, .plain 0 1, .literal 3 5],
      token.IsSliceOf "é 'c' de" := by
    intro token member
    simp only [List.mem_cons, List.not_mem_nil, or_false] at member
    rcases member with rfl | rfl | rfl | rfl | rfl
    all_goals exact ⟨by decide, by decide, by rw [IsBoundary]; decide, by rw [IsBoundary]; decide⟩
  have forward : JoinsForward "é 'c' de" (.append .empty "word" ["de"])
      [Token.literal 3 5, .plain 7 8, .plain 0 6, .plain 0 1, .literal 3 5] := by
    intro before token after split plain last isLast lastPlain
    rcases before with _ | ⟨a, _ | ⟨b, _ | ⟨c, _ | ⟨d, _ | ⟨e, rest⟩⟩⟩⟩⟩
    all_goals simp only [List.nil_append, List.cons_append, List.cons.injEq] at split
    · obtain ⟨rfl, _⟩ := split
      contradiction
    · obtain ⟨rfl, rfl, _⟩ := split
      cases isLast
      contradiction
    · obtain ⟨rfl, rfl, rfl, _⟩ := split
      have latest : ((Outline.start "é 'c' de" (.append .empty "word" ["de"])).addAll
          [Token.literal 3 5, .plain 7 8]).entries.getLast? = some ⟨⟨7, 8⟩, .keyword 0⟩ := by cbv
      rw [latest] at isLast
      cases isLast
      contradiction
    · obtain ⟨rfl, rfl, rfl, rfl, _⟩ := split
      have latest : ((Outline.start "é 'c' de" (.append .empty "word" ["de"])).addAll
          [Token.literal 3 5, .plain 7 8, .plain 0 6]).entries.getLast? =
            some ⟨⟨0, 6⟩, .plain⟩ := by cbv
      rw [latest] at isLast
      cases isLast
      decide
    · obtain ⟨rfl, rfl, rfl, rfl, rfl, _⟩ := split
      contradiction
    · simp at split
  obtain ⟨_, places, covering⟩ := isCovering_finish (.append .empty "word" ["de"]) .standard
    slices forward
  exact ⟨_, _, places, rfl, rfl, slices, forward, covering, by cbv⟩

end Highlighter
