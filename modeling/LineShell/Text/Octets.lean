import LineShell.Text.Utf8
/-!
Texts of bytes.

A program that knows no encoding takes every byte for a character of its own. Its texts have
characters below 256 only, one for each byte, so nothing that it reads is lost when it is written
again, whether it was UTF-8 or not.
-/

set_option autoImplicit false

namespace LineShell

namespace Octets

/-- The character that stands for a byte. -/
def charOf (b : UInt8) : Char := Char.ofNat b.toNat

/-- The byte that a character stands for. -/
def byteOf (c : Char) : UInt8 := UInt8.ofNat c.toNat

theorem toNat_charOf (b : UInt8) : (charOf b).toNat = b.toNat := by
  have h : b.toNat.isValidChar := .inl (Nat.lt_trans b.toNat_lt (by decide))
  rw [charOf, Char.ofNat, dif_pos h]
  rfl

theorem byteOf_charOf (b : UInt8) : byteOf (charOf b) = b := by
  simp [byteOf, toNat_charOf]

end Octets

/-- The text with one character for each byte. -/
def octetText (bytes : Bytes) : String := String.ofList (bytes.map Octets.charOf)

/-- The bytes of a text of bytes. -/
def octetBytes (text : String) : Bytes := text.toList.map Octets.byteOf

/-- **Nothing is lost** on the way through a text of bytes. -/
@[simp] theorem octetBytes_octetText (bytes : Bytes) : octetBytes (octetText bytes) = bytes := by
  simp [octetBytes, octetText, Function.comp_def, Octets.byteOf_charOf]

/-- A text as a program sees it that takes every byte of its encoding for a character. -/
def octetsOf (text : String) : String := octetText (bytesOf text)

theorem octetBytes_octetsOf (text : String) : octetBytes (octetsOf text) = bytesOf text := by
  simp [octetsOf]

end LineShell
