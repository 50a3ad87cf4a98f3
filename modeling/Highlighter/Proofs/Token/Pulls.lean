import Highlighter.Proofs.Token.Tiling

/-! # The stream from any position

Nothing here depends on what a position stands on: from the inside of a character, too, the tokens
lie end to end up to the end of the text, and a stream that has ended stays ended. -/

set_option autoImplicit false

namespace Highlighter

namespace PaddedText.Pos

variable {padded : PaddedText} {pos after : padded.Pos} {token : Token}

theorem range_of_token? (found : pos.token? = some (token, after)) :
    token.range = ⟨pos.offset, after.offset - 1⟩ := by
  simp only [token?] at found
  split at found
  · contradiction
  all_goals
    obtain ⟨rfl, rfl⟩ := by simpa using found
    rfl

theorem stop_of_token? (found : pos.token? = some (token, after)) :
    token.range.stop = after.offset := by
  have step := lt_of_token?_eq_some found
  rw [range_of_token? found]
  simp only [ByteRange.stop]
  omega

theorem tiles_tokens (pos : padded.Pos) :
    Tiles pos.offset padded.length (pos.tokens.map Token.range) := by
  induction measured : pos.left using Nat.strongRecOn generalizing pos with
  | ind size shorter =>
      rw [tokens_eq]
      cases found : pos.token? with
      | none =>
          have bound := pos.offset_le
          have ended := token?_eq_none_iff.mp found
          exact Nat.le_antisymm bound ended
      | some pair =>
          obtain ⟨token, after⟩ := pair
          have step := lt_of_token?_eq_some found
          have bound := after.offset_le
          have range := range_of_token? found
          have later := shorter after.left (by simp only [left] at measured ⊢; omega) after rfl
          rw [← stop_of_token? found] at later
          refine ⟨by rw [range], ?_, later⟩
          simp only [range]
          omega

theorem pulls_eq (count : Nat) : ∀ pos : padded.Pos,
    pos.pulls count =
      (pos.tokens.take count).map some ++ List.replicate (count - pos.tokens.length) none := by
  induction count with
  | zero =>
      intro pos
      simp [pulls]
  | succ count ih =>
      intro pos
      rw [pulls, pull, tokens_eq]
      cases found : pos.token? with
      | none =>
          have ended : pos.tokens = [] := by rw [tokens_eq, found]
          simp only [ih pos, ended, List.take_nil, List.map_nil, List.nil_append, List.length_nil,
            Nat.sub_zero, List.replicate_succ]
      | some pair => simp [ih pair.2]

end PaddedText.Pos

theorem Tiles.length_le {ranges : List ByteRange} : ∀ {start stop : Nat},
    Tiles start stop ranges → ranges.length ≤ stop - start := by
  induction ranges with
  | nil =>
      intro start stop _
      exact Nat.zero_le _
  | cons range rest ih =>
      intro start stop tiles
      have short := ih tiles.2.2
      have some := tiles.lt
      obtain ⟨first, nonempty, _⟩ := tiles
      simp only [ByteRange.stop] at short
      simp only [List.length_cons]
      omega

end Highlighter
