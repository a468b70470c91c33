/-
# Decimal digits of every script

A version component is a run of decimal digits, and the grammars that read one accept the digits of
every script. The digits of a script stand in a block of ten that begins with its zero, so the
property is given by its zeros. Orders and arithmetic on components use the ten ASCII digits alone.
-/
import VersionRanges.Text.Basic

namespace VersionRanges.Text

/-- The code points of the digits zero of all scripts (general category `Nd`). -/
def decimalZeros : List Nat := [
  0x30, 0x660, 0x6F0, 0x7C0, 0x966, 0x9E6, 0xA66, 0xAE6, 0xB66, 0xBE6, 0xC66, 0xCE6, 0xD66,
  0xDE6, 0xE50, 0xED0, 0xF20, 0x1040, 0x1090, 0x17E0, 0x1810, 0x1946, 0x19D0, 0x1A80, 0x1A90,
  0x1B50, 0x1BB0, 0x1C40, 0x1C50, 0xA620, 0xA8D0, 0xA900, 0xA9D0, 0xA9F0, 0xAA50, 0xABF0,
  0xFF10, 0x104A0, 0x10D30, 0x10D40, 0x11066, 0x110F0, 0x11136, 0x111D0, 0x112F0, 0x11450,
  0x114D0, 0x11650, 0x116C0, 0x116D0, 0x116DA, 0x11730, 0x118E0, 0x11950, 0x11BF0, 0x11C50,
  0x11D50, 0x11DA0, 0x11F50, 0x16130, 0x16A60, 0x16AC0, 0x16B50, 0x16D70, 0x1CCF0, 0x1D7CE,
  0x1D7D8, 0x1D7E2, 0x1D7EC, 0x1D7F6, 0x1E140, 0x1E2F0, 0x1E4F0, 0x1E5F1, 0x1E950, 0x1FBF0]

/-- Whether a character is a decimal digit of some script. -/
def isDecimalDigit (c : Char) : Bool :=
  if c.toNat < 0x80 then c.isDigit
  else decimalZeros.any fun start => start ≤ c.toNat && c.toNat ≤ start + 9

/-- Every ASCII digit is a decimal digit. -/
theorem isDecimalDigit_of_isDigit {c : Char} (ascii : c.isDigit = true) :
    isDecimalDigit c = true := by
  have bounds : 48 ≤ c.toNat ∧ c.toNat ≤ 57 := by
    simpa [Char.isDigit, UInt32.le_iff_toNat_le] using ascii
  simp [isDecimalDigit, ascii, show c.toNat < 0x80 by omega]

/-- Among the ASCII characters the decimal digits are the ten ASCII digits. -/
theorem isDecimalDigit_of_ascii {c : Char} (ascii : c.toNat < 0x80) :
    isDecimalDigit c = c.isDigit := by
  simp [isDecimalDigit, ascii]

end VersionRanges.Text
