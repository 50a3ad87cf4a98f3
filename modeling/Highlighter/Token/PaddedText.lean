/-! # Padded text

A text is read as bytes with zeros after them, so that the byte at its end can be read like any
other.  The padding fills the last block of 64 bytes and is never empty.  A zero byte may also
belong to the text: what counts as the end is the length, never a byte. -/

set_option autoImplicit false

namespace Highlighter

structure PaddedText where
  bytes : ByteArray
  length : Nat
  length_lt : length < bytes.size

namespace PaddedText

def blockSize : Nat := 64

def paddedSize (length : Nat) : Nat :=
  (length / blockSize + 1) * blockSize

theorem lt_paddedSize (length : Nat) : length < paddedSize length := by
  simp only [paddedSize, blockSize]
  omega

def zeros (count : Nat) : ByteArray :=
  ⟨Array.replicate count 0⟩

theorem size_zeros (count : Nat) : (zeros count).size = count := by
  simp [zeros, ByteArray.size]

def ofString (text : String) : PaddedText where
  bytes := text.toUTF8 ++ zeros (paddedSize text.utf8ByteSize - text.utf8ByteSize)
  length := text.utf8ByteSize
  length_lt := by
    have above := lt_paddedSize text.utf8ByteSize
    have size : text.toUTF8.size = text.utf8ByteSize := by simp
    rw [ByteArray.size_append, size_zeros, size]
    omega

def content (padded : PaddedText) : ByteArray :=
  padded.bytes.extract 0 padded.length

def padding (padded : PaddedText) : ByteArray :=
  padded.bytes.extract padded.length padded.bytes.size

def isEmpty (padded : PaddedText) : Bool :=
  padded.length == 0

end PaddedText

end Highlighter
