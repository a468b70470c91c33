/-
# Blank characters

The characters that separate words in every script (property `White_Space`), and texts without the
blanks around them.
-/
import VersionRanges.Text.Basic

namespace VersionRanges.Text

/-- Whether a character is blank: a space, a tab, a line or page break, or one of the spaces of
other widths. -/
def isBlank (c : Char) : Bool :=
  let n := c.toNat
  (0x09 ≤ n && n ≤ 0x0D) || n == 0x20 || n == 0x85 || n == 0xA0 || n == 0x1680 ||
    (0x2000 ≤ n && n ≤ 0x200A) || n == 0x2028 || n == 0x2029 || n == 0x202F || n == 0x205F ||
    n == 0x3000

/-- A text without the blanks before it. -/
def trimLeft (text : Text) : Text := text.dropWhile isBlank

/-- A text without the blanks after it. -/
def trimRight (text : Text) : Text := (text.reverse.dropWhile isBlank).reverse

/-- A text without the blanks around it. -/
def trim (text : Text) : Text := trimRight (trimLeft text)

end VersionRanges.Text
