import Highlighter.Proofs.Token.Automaton
import Highlighter.Proofs.Token.Machine

/-! # From one character to the next

Whoever looks at the character at the front of a text and moves over it, again and again until the
end is reached, has seen every character of the text once and in its place.  A null character or a
U+FFFD of the text is a character like any other: what ends the way is the place, not what is seen
there. -/

set_option autoImplicit false

namespace Highlighter

open Text

theorem length_charOffsets (chars : List Char) : ∀ start : Nat,
    (charOffsets start chars).length = chars.length := by
  induction chars with
  | nil =>
      intro start
      rfl
  | cons c rest ih =>
      intro start
      rw [charOffsets, List.length_cons, List.length_cons, ih]

/-! ## Positions -/

namespace PaddedText.Pos

/-- What is seen on the way to the end, and where. -/
def visits {padded : PaddedText} (pos : padded.Pos) : List (Nat × Char) :=
  if pos.offset < padded.length then (pos.offset, pos.char) :: pos.next.visits else []
termination_by pos.left
decreasing_by
  have inside : pos.offset < padded.length := by assumption
  have further := lt_next inside
  have bound := pos.next.offset_le
  simp only [left]
  omega

theorem lt_of_mem_visits {padded : PaddedText} {pos : padded.Pos} :
    ∀ visit ∈ pos.visits, visit.1 < padded.length := by
  fun_induction visits pos with
  | case1 pos inside ih =>
      intro visit member
      rcases List.mem_cons.mp member with rfl | later
      · exact inside
      · exact ih visit later
  | case2 pos ended => simp

variable {text : String} {ahead : List Char}

theorem Reads.visits_eq : ∀ {pos : (ofString text).Pos}, pos.Reads ahead →
    pos.visits = charOffsets pos.offset ahead := by
  induction ahead with
  | nil =>
      intro pos reads
      have total := reads.offset_add
      rw [byteLength_nil] at total
      rw [visits, if_neg (by omega)]
      rfl
  | cons c rest ih =>
      intro pos reads
      rw [visits, if_pos reads.inside, reads.char_eq, ih reads.next, reads.offset_next]
      rfl

/-- At the end a move over a character leads nowhere. -/
theorem Reads.walk_next (count : Nat) : ∀ {pos : (ofString text).Pos} {ahead : List Char},
    pos.Reads ahead → (pos.walk (List.replicate count .next)).Reads (ahead.drop count) := by
  induction count with
  | zero =>
      intro pos ahead reads
      exact reads
  | succ count ih =>
      intro pos ahead reads
      rw [List.replicate_succ, walk, List.foldl_cons]
      cases ahead with
      | nil =>
          have stays := ih reads
          rw [List.drop_nil] at stays ⊢
          rw [← reads.eq_of_le (le_next pos)] at stays
          exact stays
      | cons c rest => exact ih reads.next

theorem offset_walk_next (text : String) (count : Nat) :
    ((ofString text).startPos.walk (List.replicate count .next)).offset =
      byteLength (text.toList.take count) := by
  have reads := (reads_startPos text).walk_next count
  have total := reads.offset_add
  have whole : byteLength (text.toList.take count) + byteLength (text.toList.drop count) =
      (ofString text).length := by
    rw [← byteLength_append, List.take_append_drop, byteLength_toList]
    rfl
  omega

theorem isEnd_walk_next (text : String) (count : Nat) :
    ((ofString text).startPos.walk (List.replicate count .next)).isEnd =
      decide (text.length ≤ count) := by
  have reads := (reads_startPos text).walk_next count
  have total := reads.offset_add
  rw [isEnd, decide_eq_decide, ← String.length_toList, ← List.drop_eq_nil_iff,
    ← byteLength_eq_zero_iff]
  omega

end PaddedText.Pos

/-! ## The machine -/

namespace Machine

open PaddedText

namespace Cursor

/-- What the machine sees on the way to the end. -/
def visits? (cursor : Cursor) : Option (List (UInt32 × Char)) := do
  if cursor.isEnd then return []
  let c ← cursor.char?
  let after ← cursor.next?
  if after.left < cursor.left then return (cursor.offset, c) :: (← visits? after) else none
termination_by cursor.left

theorem visits?_ofPos {text : String} (small : (ofString text).length < UInt32.size)
    (pos : (ofString text).Pos) : (ofPos pos).visits? =
      some (pos.visits.map fun visit => (UInt32.ofNat visit.1, visit.2)) := by
  fun_induction Pos.visits pos with
  | case1 pos inside ih =>
      have goOn : pos.isEnd = false := by simpa [Pos.isEnd] using inside
      have closer := left_lt_ofPos small pos (Pos.lt_next inside)
      rw [visits?, isEnd_ofPos small, goOn, char?_ofPos small, next?_ofPos small]
      simp only [Bool.false_eq_true, if_false, Option.bind_eq_bind, Option.bind_some, if_pos closer,
        ih, Option.pure_def, List.map_cons]
      rfl
  | case2 pos ended =>
      have atEnd : pos.isEnd = true := by simpa [Pos.isEnd] using ended
      rw [visits?, isEnd_ofPos small, atEnd]
      rfl

end Cursor

/-- The way over a text shows its characters one by one, ends after as many moves as there are
characters, and ends at the end of the text, from where no further move leads away. -/
theorem exists_visits? (text : String) (small : text.utf8ByteSize < UInt32.size) :
    (ofString text).startPos.visits = charOffsets 0 text.toList ∧
      (∃ visited, (Cursor.ofText text).visits? = some visited ∧
        visited.map (fun visit => (visit.1.toNat, visit.2)) = charOffsets 0 text.toList ∧
        visited.length = text.length) ∧
      (∀ count, ∃ cursor, (Cursor.ofText text).walk? (List.replicate count .next) = some cursor ∧
        cursor.offset.toNat = byteLength (text.toList.take count) ∧
        cursor.isEnd = decide (text.length ≤ count)) ∧
      ∃ stop, stop.offset.toNat = text.utf8ByteSize ∧ ∀ count, text.length ≤ count →
        (Cursor.ofText text).walk? (List.replicate count .next) = some stop := by
  have walked : ∀ count, (Cursor.ofText text).walk? (List.replicate count .next) =
      some (Cursor.ofPos ((ofString text).startPos.walk (List.replicate count .next))) :=
    fun count => Cursor.walk?_ofPos small _ (ofString text).startPos
  have seen : (ofString text).startPos.visits = charOffsets 0 text.toList :=
    (Pos.reads_startPos text).visits_eq
  refine ⟨seen, ?_, ?_, ?_⟩
  · refine ⟨_, Cursor.visits?_ofPos small (ofString text).startPos, ?_, ?_⟩
    · rw [List.map_map, ← seen]
      apply (List.map_congr_left ?_).trans (List.map_id _)
      intro visit member
      have within := Nat.lt_trans (Pos.lt_of_mem_visits visit member) small
      exact congrArg (·, visit.2) (UInt32.toNat_ofNat_of_lt' within)
    · rw [List.length_map, seen, length_charOffsets, String.length_toList]
  · intro count
    refine ⟨_, walked count, ?_, ?_⟩
    · rw [Cursor.toNat_offset_ofPos small, Pos.offset_walk_next]
    · rw [Cursor.isEnd_ofPos small, Pos.isEnd_walk_next]
  · refine ⟨Cursor.ofPos ⟨(ofString text).length, Nat.le_refl _⟩, ?_, ?_⟩
    · exact Cursor.toNat_offset_ofPos small _
    · intro count past
      have ended : (ofString text).startPos.walk (List.replicate count .next) =
          ⟨(ofString text).length, Nat.le_refl _⟩ := by
        apply Pos.ext
        rw [Pos.offset_walk_next, List.take_of_length_le (by rwa [String.length_toList]),
          byteLength_toList]
        rfl
      rw [walked, ended]

/-- A null character, a U+FFFD and characters of two and of four bytes. -/
theorem exists_visits?_of_widths :
    "a\x00é\uFFFD😀".utf8ByteSize < UInt32.size ∧
      ∃ visited, (Cursor.ofText "a\x00é\uFFFD😀").visits? = some visited ∧
        visited.map (fun visit => (visit.1.toNat, visit.2)) =
          [(0, 'a'), (1, '\x00'), (2, 'é'), (4, '\uFFFD'), (7, '😀')] := by
  have small : "a\x00é\uFFFD😀".utf8ByteSize < UInt32.size := by decide
  obtain ⟨_, ⟨visited, seen, places, _⟩, _⟩ := exists_visits? "a\x00é\uFFFD😀" small
  exact ⟨small, visited, seen, places.trans (by cbv)⟩

end Machine

end Highlighter
