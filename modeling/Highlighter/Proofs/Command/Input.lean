import Highlighter.Proofs.Command.Outcome
import Highlighter.Proofs.Text.Decoding

/-! # What is read from a source

A source may hold any bytes.  The text that is read from it has every character whose form stands
in the bytes, in its place, and where the bytes are no text it has replacements and nothing else. -/

set_option autoImplicit false

namespace Highlighter.Command

open Text

/-- Damage does not spread.  A text in the middle of the bytes is read as it is, and what is
before it and behind it as if it stood alone; the other way round, a character that is read and is
no replacement stands in the bytes.  So bytes that are a text are read unchanged, and the ASCII
characters that are read are the bytes below 128. -/
theorem fetchText_damage_local (host : Host Id) (source : Source) (bytes : ByteArray)
    (had : source.content host = .ok bytes) :
    fetchText host source = .ok (decodeLossy bytes) ∧
      (∀ text : String, Decodes bytes.data.toList text.toList ↔ decodeLossy bytes = text) ∧
      (∀ (before after : ByteArray) (text : String), text ≠ "" →
        bytes = before ++ text.toUTF8 ++ after →
          decodeLossy bytes = decodeLossy before ++ text ++ decodeLossy after) ∧
      (∀ (before after : String) (c : Char), c ≠ replacement →
        decodeLossy bytes = before ++ String.singleton c ++ after →
          ∃ left right : ByteArray, bytes = left ++ (String.singleton c).toUTF8 ++ right ∧
            decodeLossy left = before ∧ decodeLossy right = after) ∧
      (∀ text, String.fromUTF8? bytes = some text →
        text.toUTF8 = bytes ∧ decodeLossy bytes = text) ∧
      (decodeLossy bytes).toList.filter (fun c => c.toNat < 128) =
        (bytes.data.toList.filter fun byte => byte < 0x80).map Char.ofUInt8 ∧
      decodeLossy (decodeLossy bytes).toUTF8 = decodeLossy bytes := by
  refine ⟨?_, fun text => decodes_iff, ?_, ?_, ?_, ?_, decodeLossy_toUTF8 _⟩
  · rw [fetchText_eq, had]
  · intro before after text nonempty laid
    rw [laid]
    exact decodeLossy_between before after nonempty
  · intro before after c genuine decoded
    exact exists_of_decodeLossy_eq genuine decoded
  · intro text decoded
    exact ⟨fromUTF8?_eq_some_iff.mp decoded, decodeLossy_of_fromUTF8? decoded⟩
  · exact (decodes_iff.mpr rfl).filter_ascii

/-- A quote stands behind the front of a character and before a byte that starts none. -/
theorem fetchText_damage_local_torn :
    Source.stdin.content (Files.empty.host ⟨#[0xE2, 0x82, 0x27, 0xFF, 0x61]⟩) =
        .ok ⟨#[0xE2, 0x82, 0x27, 0xFF, 0x61]⟩ ∧
      "'" ≠ "" ∧
      (⟨#[0xE2, 0x82, 0x27, 0xFF, 0x61]⟩ : ByteArray) =
        ⟨#[0xE2, 0x82]⟩ ++ "'".toUTF8 ++ ⟨#[0xFF, 0x61]⟩ ∧
      fetchText (Files.empty.host ⟨#[0xE2, 0x82, 0x27, 0xFF, 0x61]⟩) .stdin =
        .ok (decodeLossy ⟨#[0xE2, 0x82]⟩ ++ "'" ++ decodeLossy ⟨#[0xFF, 0x61]⟩) ∧
      decodeLossy ⟨#[0xE2, 0x82]⟩ = "\uFFFD" ∧ decodeLossy ⟨#[0xFF, 0x61]⟩ = "\uFFFDa" := by
  have laid : (⟨#[0xE2, 0x82, 0x27, 0xFF, 0x61]⟩ : ByteArray) =
      ⟨#[0xE2, 0x82]⟩ ++ "'".toUTF8 ++ ⟨#[0xFF, 0x61]⟩ := by decide
  have nonempty : "'" ≠ "" := by simp
  obtain ⟨fetched, _, between, _⟩ := fetchText_damage_local
    (Files.empty.host ⟨#[0xE2, 0x82, 0x27, 0xFF, 0x61]⟩) .stdin _ rfl
  rw [between _ _ "'" nonempty laid] at fetched
  exact ⟨rfl, nonempty, laid, fetched, by decide, by decide⟩

end Highlighter.Command
