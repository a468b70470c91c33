/-
# Text

Versions and constraints are texts, and every grammar of this library reads a text from its front
and hands on what is left. A text is therefore kept as the list of its characters: a grammar is then
a function by recursion on the text, and what it consumed and what it left can be stated with the
lemmas about lists.
-/

namespace VersionRanges

/-- A text, character by character. -/
abbrev Text := List Char

namespace Text

/-- The line break that ends a line of output. -/
def newline : Text := ['\n']

/-- Lines of output, each closed by a line break. -/
def ofLines (lines : List Text) : Text := lines.flatMap (· ++ newline)

/-- A text between double quotes, as messages show it. -/
def quoted (text : Text) : Text := '"' :: text ++ ['"']

/-- The decimal digits of a natural number. -/
def ofNat (n : Nat) : Text := Nat.toDigits 10 n

end Text

end VersionRanges
