import Highlighter.Proofs.Token.Tiling
import Highlighter.Run.Outline

/-! # Joining entries

Tokens that tile their text become entries that tile it too.  Nothing is lost on the way but the
borders between plain tokens, so the entries are determined by those that are not plain, and the
runs are the entries one by one. -/

set_option autoImplicit false

namespace Highlighter

def Token.category (source : String) (lexicon : Lexicon) (token : Token) : Category :=
  match token.kind with
  | .literal => .literal
  | .plain => lexicon.category (token.text source)

theorem Token.category_eq_keyword {source : String} {lexicon : Lexicon} {token : Token}
    {group : GroupId} : token.category source lexicon = .keyword group ↔
      token.kind = .plain ∧ lexicon.category (token.text source) = .keyword group := by
  rw [Token.category]
  cases token.kind <;> simp

def Token.entry (source : String) (lexicon : Lexicon) (token : Token) : Entry :=
  ⟨token.range, token.category source lexicon⟩

namespace Entry

def isPlain (entry : Entry) : Bool := entry.category == .plain

/-- The entries that are not plain. -/
def marked (entries : List Entry) : List Entry := entries.filter fun entry => !entry.isPlain

/-- No two plain entries are next to each other. -/
def Apart (entries : List Entry) : Prop :=
  entries.IsChain fun entry next => ¬ (entry.isPlain = true ∧ next.isPlain = true)

def run (source : String) (palette : Palette) (entry : Entry) : Run :=
  ⟨entry.range.text source, entry.range, entry.category, palette.color entry.category⟩

@[simp]
theorem marked_nil : marked [] = [] := rfl

@[simp]
theorem marked_append (left right : List Entry) :
    marked (left ++ right) = marked left ++ marked right :=
  List.filter_append ..

theorem marked_cons_of_plain {entry : Entry} (plain : entry.isPlain = true) (rest : List Entry) :
    marked (entry :: rest) = marked rest := by
  simp [marked, plain]

theorem marked_cons_of_not_plain {entry : Entry} (notPlain : entry.isPlain = false)
    (rest : List Entry) : marked (entry :: rest) = entry :: marked rest := by
  simp [marked, notPlain]

theorem isPlain_eq_false_of_apart {entry next : Entry} {rest : List Entry}
    (apart : Apart (entry :: next :: rest)) (plain : entry.isPlain = true) :
    next.isPlain = false := by
  have neighbours := (List.isChain_cons.mp apart).1 next rfl
  simpa [plain] using neighbours

theorem eq_of_plain {entry next : Entry} (plain : entry.isPlain = true)
    (plain' : next.isPlain = true) (first : entry.range.first = next.range.first)
    (stop : entry.range.stop = next.range.stop) : entry = next := by
  obtain ⟨⟨start, last⟩, category⟩ := entry
  obtain ⟨⟨start', last'⟩, category'⟩ := next
  obtain rfl : category = .plain := by simpa [isPlain] using plain
  obtain rfl : category' = .plain := by simpa [isPlain] using plain'
  obtain rfl : last = last' := Nat.succ.inj stop
  obtain rfl : start = start' := first
  rfl

theorem Apart.tail {entry : Entry} {rest : List Entry} (apart : Apart (entry :: rest)) :
    Apart rest :=
  (List.isChain_cons.mp apart).2

end Entry

open Entry

/-! ## Uniqueness -/

theorem stop_of_plain {entry : Entry} {rest : List Entry} {start stop : Nat}
    (apart : Apart (entry :: rest)) (plain : entry.isPlain = true)
    (tiles : Tiles start stop ((entry :: rest).map Entry.range)) :
    entry.range.stop = ((marked rest).head?.map fun next => next.range.first).getD stop := by
  obtain ⟨_, _, later⟩ := tiles
  cases rest with
  | nil => exact later
  | cons next others =>
      rw [marked_cons_of_not_plain (isPlain_eq_false_of_apart apart plain)]
      exact later.1.symm

/-- A tiling that starts with a plain entry has no marked entry at its start. -/
theorem first_ne_of_plain {entry : Entry} {rest : List Entry} {start stop : Nat}
    (apart : Apart (entry :: rest)) (plain : entry.isPlain = true)
    (tiles : Tiles start stop ((entry :: rest).map Entry.range)) {next : Entry}
    (head : (marked rest).head? = some next) : next.range.first ≠ start := by
  have ends := stop_of_plain apart plain tiles
  obtain ⟨first, nonempty, _⟩ := tiles
  rw [head, Option.map_some, Option.getD_some] at ends
  simp only [ByteRange.stop] at ends
  omega

/-- Entries that tile a text with no two plain ones next to each other are determined by the
marked ones among them. -/
theorem entries_unique {stop : Nat} {left : List Entry} : ∀ {right : List Entry} {start : Nat},
    Tiles start stop (left.map Entry.range) → Tiles start stop (right.map Entry.range) →
      Apart left → Apart right → marked left = marked right → left = right := by
  induction left with
  | nil =>
      intro right start tiles tiles' _ _ _
      cases right with
      | nil => rfl
      | cons entry rest =>
          have ended : start = stop := tiles
          exact absurd ended (Nat.ne_of_lt tiles'.lt)
  | cons entry rest ih =>
      intro right start tiles tiles' apart apart' same
      cases right with
      | nil =>
          have ended : start = stop := tiles'
          exact absurd ended (Nat.ne_of_lt tiles.lt)
      | cons entry' rest' =>
          have first := tiles.1
          have first' := tiles'.1
          cases plain : entry.isPlain with
          | true =>
              rw [marked_cons_of_plain plain] at same
              cases plain' : entry'.isPlain with
              | true =>
                  rw [marked_cons_of_plain plain'] at same
                  have stop := stop_of_plain apart plain tiles
                  have stop' := stop_of_plain apart' plain' tiles'
                  rw [same, ← stop'] at stop
                  obtain rfl := eq_of_plain plain plain' (first.trans first'.symm) stop
                  rw [ih tiles.2.2 tiles'.2.2 apart.tail apart'.tail same]
              | false =>
                  -- the first marked entry would start after this place and at it
                  rw [marked_cons_of_not_plain plain'] at same
                  have later := first_ne_of_plain apart plain tiles (by rw [same]; rfl)
                  exact absurd first' later
          | false =>
              rw [marked_cons_of_not_plain plain] at same
              cases plain' : entry'.isPlain with
              | true =>
                  rw [marked_cons_of_plain plain'] at same
                  have later := first_ne_of_plain apart' plain' tiles' (by rw [← same]; rfl)
                  exact absurd first later
              | false =>
                  rw [marked_cons_of_not_plain plain', List.cons.injEq] at same
                  obtain ⟨rfl, same⟩ := same
                  rw [ih tiles.2.2 tiles'.2.2 apart.tail apart'.tail same]

/-! ## One more entry -/

namespace Entry

/-- The entries with one more, the latest first. -/
def push (newest : List Entry) (entry : Entry) : List Entry :=
  Outline.addEntry entry.range entry.category newest

def pushAll (newest entries : List Entry) : List Entry := entries.foldl push newest

/-- A plain entry after a plain one moves the end of that one; any other is put after the rest. -/
theorem push_cases (newest : List Entry) (entry : Entry) :
    (∃ last before, newest = last :: before ∧ last.isPlain = true ∧ entry.isPlain = true ∧
        push newest entry = ⟨last.range.endingAt entry.range.last, .plain⟩ :: before) ∨
      (push newest entry = entry :: newest ∧
        ∀ last ∈ newest.head?, ¬ (last.isPlain = true ∧ entry.isPlain = true)) := by
  unfold push
  cases newest with
  | nil => exact .inr ⟨rfl, by simp⟩
  | cons last before =>
      rw [Outline.addEntry]
      by_cases both : entry.category = .plain ∧ last.category = .plain
      · rw [if_pos both]
        exact .inl ⟨last, before, rfl, by simp [isPlain, both], by simp [isPlain, both], rfl⟩
      · rw [if_neg both]
        refine .inr ⟨rfl, ?_⟩
        intro final isLast
        obtain rfl : last = final := by simpa using isLast
        simpa [isPlain, and_comm] using both

variable {newest : List Entry} {entry other : Entry}

theorem mem_push (member : other ∈ push newest entry) : other ∈ newest ∨ other = entry ∨
    ∃ last ∈ newest, other = ⟨last.range.endingAt entry.range.last, .plain⟩ := by
  rcases push_cases newest entry with ⟨last, before, rfl, _, _, same⟩ | ⟨same, _⟩
  · rw [same] at member
    rcases List.mem_cons.mp member with rfl | member
    · exact .inr (.inr ⟨last, List.mem_cons_self, rfl⟩)
    · exact .inl (List.mem_cons_of_mem _ member)
  · rw [same] at member
    rcases List.mem_cons.mp member with rfl | member
    · exact .inr (.inl rfl)
    · exact .inl member

theorem apart_push (apart : Apart newest.reverse) : Apart (push newest entry).reverse := by
  unfold Apart at apart ⊢
  rcases push_cases newest entry with ⟨last, before, rfl, lastPlain, _, same⟩ | ⟨same, border⟩
  · rw [List.reverse_cons, List.isChain_append] at apart
    obtain ⟨earlier, _, border⟩ := apart
    rw [same, List.reverse_cons, List.isChain_append]
    refine ⟨earlier, List.isChain_singleton _, ?_⟩
    intro final isLast next isNext both
    exact border final isLast last rfl ⟨both.1, lastPlain⟩
  · rw [same, List.reverse_cons, List.isChain_append]
    refine ⟨apart, List.isChain_singleton entry, ?_⟩
    intro final isLast next isNext
    obtain rfl : entry = next := by simpa using isNext
    rw [List.getLast?_reverse] at isLast
    exact border final isLast

theorem marked_push (newest : List Entry) (entry : Entry) :
    marked (push newest entry).reverse = marked newest.reverse ++ marked [entry] := by
  rcases push_cases newest entry with ⟨last, before, rfl, lastPlain, plain, same⟩ | ⟨same, _⟩
  · rw [same, List.reverse_cons, List.reverse_cons, marked_append, marked_append,
      marked_cons_of_plain plain, marked_cons_of_plain lastPlain, marked_cons_of_plain rfl,
      marked_nil, List.append_nil, List.append_nil]
  · rw [same, List.reverse_cons, marked_append]

theorem successive_push {border : Nat → Nat → Prop} (forward : IsForward border)
    (earlier : Successive border 0 entry.range.first (newest.reverse.map Entry.range))
    (nonempty : entry.range.first ≤ entry.range.last) :
    Successive border 0 entry.range.stop ((push newest entry).reverse.map Entry.range) := by
  rcases push_cases newest entry with ⟨last, before, rfl, _, _, same⟩ | ⟨same, _⟩
  · rw [List.reverse_cons, List.map_append, successive_append forward] at earlier
    obtain ⟨middle, before', first, lastNonempty, ends⟩ := earlier
    have ended : last.range.stop ≤ entry.range.first := forward.le ends
    have longer : last.range.first ≤ entry.range.last := by
      simp only [ByteRange.stop] at ended
      omega
    rw [same, List.reverse_cons, List.map_append, successive_append forward]
    exact ⟨middle, before', first, longer, forward.refl _⟩
  · rw [same, List.reverse_cons, List.map_append, successive_append forward]
    exact ⟨entry.range.first, earlier, forward.refl _, nonempty, forward.refl _⟩

theorem successive_pushAll {border : Nat → Nat → Prop} (forward : IsForward border) {stop : Nat}
    {entries : List Entry} : ∀ {newest : List Entry} {start : Nat},
      Successive border 0 start (newest.reverse.map Entry.range) →
        Successive border start stop (entries.map Entry.range) →
        Successive border 0 stop ((pushAll newest entries).reverse.map Entry.range) := by
  induction entries with
  | nil =>
      intro newest start earlier here
      exact earlier.extend forward here
  | cons entry rest ih =>
      intro newest start earlier ordered
      obtain ⟨here, nonempty, later⟩ := ordered
      exact ih (successive_push forward (earlier.extend forward here) nonempty) later

theorem successive_pushAll_nil {border : Nat → Nat → Prop} (forward : IsForward border)
    {stop : Nat} {entries : List Entry} (ordered : Successive border 0 stop (entries.map range)) :
    Successive border 0 stop ((pushAll [] entries).reverse.map range) := by
  have start : Successive border 0 0 (([] : List Entry).reverse.map range) := forward.refl 0
  exact successive_pushAll forward start ordered

end Entry

/-- What `newest`, the latest entry first, keeps of the entries `added` so far, in whatever order
they came. -/
structure Gathers (added newest : List Entry) : Prop where
  apart : Apart newest.reverse
  marked : marked newest.reverse = marked added
  /-- Joining moves no border to a place where there was none. -/
  borders : ∀ entry ∈ newest, (∃ token ∈ added, entry.range.first = token.range.first) ∧
    ∃ token ∈ added, entry.range.stop = token.range.stop

namespace Gathers

variable {added newest : List Entry}

theorem nil : Gathers [] [] := ⟨List.isChain_nil, rfl, by simp⟩

theorem push (gathers : Gathers added newest) (entry : Entry) :
    Gathers (added ++ [entry]) (Entry.push newest entry) := by
  refine ⟨apart_push gathers.apart, ?_, ?_⟩
  · rw [marked_push, gathers.marked, marked_append]
  · have known : ∀ other ∈ newest,
        (∃ token ∈ added ++ [entry], other.range.first = token.range.first) ∧
          ∃ token ∈ added ++ [entry], other.range.stop = token.range.stop := by
      intro other member
      obtain ⟨⟨token, early, first⟩, token', late, stop⟩ := gathers.borders other member
      exact ⟨⟨token, List.mem_append_left _ early, first⟩,
        token', List.mem_append_left _ late, stop⟩
    have latest : entry ∈ added ++ [entry] := by simp
    intro other member
    rcases mem_push member with earlier | rfl | ⟨last, earlier, rfl⟩
    · exact known other earlier
    · exact ⟨⟨other, latest, rfl⟩, other, latest, rfl⟩
    · exact ⟨(known last earlier).1, entry, latest, rfl⟩

theorem pushAll (entries : List Entry) : ∀ {added newest : List Entry}, Gathers added newest →
    Gathers (added ++ entries) (Entry.pushAll newest entries) := by
  induction entries with
  | nil =>
      intro added newest gathers
      rw [List.append_nil]
      exact gathers
  | cons entry rest ih =>
      intro added newest gathers
      have all := ih (gathers.push entry)
      rw [List.append_assoc, List.singleton_append] at all
      exact all

theorem isBoundary {source : String} (gathers : Gathers added newest)
    (boundaries : ∀ token ∈ added,
      IsBoundary source token.range.first ∧ IsBoundary source token.range.stop) :
    ∀ entry ∈ newest, IsBoundary source entry.range.first ∧ IsBoundary source entry.range.stop := by
  intro entry member
  obtain ⟨⟨token, early, first⟩, token', late, stop⟩ := gathers.borders entry member
  rw [first, stop]
  exact ⟨(boundaries token early).1, (boundaries token' late).2⟩

end Gathers

theorem Outline.newest_addAll (tokens : List Token) : ∀ outline : Outline,
    (outline.addAll tokens).newest =
      pushAll outline.newest (tokens.map (Token.entry outline.source outline.lexicon)) := by
  induction tokens with
  | nil =>
      intro outline
      rfl
  | cons token rest ih =>
      intro outline
      exact ih (outline.add token)

theorem Outline.addAll_fixed (tokens : List Token) : ∀ outline : Outline,
    (outline.addAll tokens).source = outline.source ∧
      (outline.addAll tokens).lexicon = outline.lexicon := by
  induction tokens with
  | nil =>
      intro outline
      exact ⟨rfl, rfl⟩
  | cons token rest ih =>
      intro outline
      exact ih (outline.add token)

/-! ## Tokens end to end -/

/-- What `newest`, the latest entry first, keeps of the entries `added` so far, which reach up to
`stop`. -/
structure Joins (added newest : List Entry) (stop : Nat) : Prop where
  tiles : Tiles 0 stop (newest.reverse.map Entry.range)
  apart : Apart newest.reverse
  marked : marked newest.reverse = marked added
  /-- Joining moves no border to a place where there was none. -/
  stops : ∀ entry ∈ newest, ∃ token ∈ added, entry.range.stop = token.range.stop

theorem joins_pushAll {entries : List Entry} {stop : Nat}
    (tiles : Tiles 0 stop (entries.map Entry.range)) :
    Joins entries (pushAll [] entries) stop := by
  have gathers := Gathers.nil.pushAll entries
  rw [tiles_iff_successive] at tiles
  refine ⟨?_, gathers.apart, gathers.marked, fun entry member => (gathers.borders entry member).2⟩
  rw [tiles_iff_successive]
  exact successive_pushAll_nil isForward_eq tiles

/-! ## Runs -/

/-- The bridge from `first` to `stop`, if there is anything between them. -/
def gap (source : String) (palette : Palette) (first stop : Nat) : List Run :=
  if first < stop then [Outline.bridge source palette first stop] else []

/-- The runs from `next` on: those of the entries, and bridges before, between and after them. -/
def spread (source : String) (palette : Palette) : Nat → List Entry → List Run
  | next, [] => gap source palette next source.utf8ByteSize
  | next, entry :: rest =>
    gap source palette next entry.range.first ++
      entry.run source palette :: spread source palette entry.range.stop rest

theorem newest_fill (source : String) (palette : Palette) (layout : Outline.Layout) (stop : Nat) :
    (layout.fill source palette stop).newest =
      (gap source palette layout.next stop).reverse ++ layout.newest := by
  rw [Outline.Layout.fill, gap]
  split <;> rfl

theorem newest_foldl_place {source : String} {palette : Palette} (entries : List Entry) :
    ∀ layout : Outline.Layout,
      ((entries.foldl (Outline.Layout.place source palette) layout).fill source palette
        source.utf8ByteSize).newest =
          (spread source palette layout.next entries).reverse ++ layout.newest := by
  induction entries with
  | nil =>
      intro layout
      exact newest_fill source palette layout source.utf8ByteSize
  | cons entry rest ih =>
      intro layout
      rw [List.foldl_cons, ih, spread, Outline.Layout.place, newest_fill]
      simp [Entry.run]

theorem Outline.runs_eq_spread (outline : Outline) (palette : Palette) :
    outline.runs palette = spread outline.source palette 0 outline.entries := by
  rw [Outline.runs, newest_foldl_place]
  simp

theorem mem_gap {source : String} {palette : Palette} {run : Run} {first stop : Nat}
    (member : run ∈ gap source palette first stop) :
    first < stop ∧ run = Entry.run source palette ⟨⟨first, stop - 1⟩, .plain⟩ := by
  rw [gap] at member
  split at member
  · next some => exact ⟨some, List.mem_singleton.mp member⟩
  · simp at member

theorem gap_self (source : String) (palette : Palette) (offset : Nat) :
    gap source palette offset offset = [] := by
  rw [gap, if_neg (Nat.lt_irrefl offset)]

/-- Entries that lie end to end leave a gap only behind the last of them. -/
theorem spread_of_tiles {source : String} {palette : Palette} {entries : List Entry} {stop : Nat} :
    ∀ {next : Nat}, Tiles next stop (entries.map Entry.range) →
      spread source palette next entries =
        entries.map (Entry.run source palette) ++ gap source palette stop source.utf8ByteSize := by
  induction entries with
  | nil =>
      intro next tiles
      have ended : next = stop := tiles
      rw [spread, ended]
      rfl
  | cons entry rest ih =>
      intro next tiles
      obtain ⟨first, _, later⟩ := tiles
      rw [spread, ← first, gap_self, ih later]
      rfl

theorem runs_of_tiles (outline : Outline) (palette : Palette)
    (tiles : Tiles 0 outline.source.utf8ByteSize (outline.entries.map Entry.range)) :
    outline.runs palette = outline.entries.map (Entry.run outline.source palette) := by
  rw [Outline.runs_eq_spread, spread_of_tiles tiles, gap_self, List.append_nil]

theorem join_of_tiles {source : String} {runs : List Run}
    (tiles : Tiles 0 source.utf8ByteSize (runs.map Run.range))
    (boundaries : ∀ run ∈ runs, IsBoundary source run.range.stop)
    (texts : ∀ run ∈ runs, run.text = run.range.text source) :
    String.join (runs.map Run.text) = source := by
  have split : source.toList = [] ++ source.toList := rfl
  have stops : ∀ range ∈ runs.map Run.range, IsBoundary source range.stop := by
    intro range member
    obtain ⟨run, known, rfl⟩ := List.mem_map.mp member
    exact boundaries run known
  have chars := (tiles.text_eq split stops).1
  rw [List.flatMap_map] at chars
  apply String.toList_injective
  rw [String.toList_join, List.flatMap_map, ← chars]
  apply List.flatMap_congr
  intro run member
  rw [texts run member]

end Highlighter
