/-
# Aliases and build metadata

A version may be given another name, as in `dev-main as 1.0.0`, and may carry build metadata behind
a plus sign. Neither has a part in the normal form, so both are cut off before a version is read.
When what is left is refused, the full text tells which side of an alias it was.
-/
import VersionRanges.Error
import VersionRanges.Text.Blank

namespace VersionRanges.Alias

/-- Whether a character may be part of either side of an alias. -/
def isPartChar (c : Char) : Bool := c != ',' && !Text.isBlank c

/-- Leaves out the spaces that a text begins with, of which there must be one. -/
def dropSpaces? : Text → Option Text
  | ' ' :: rest => some (rest.dropWhile (· == ' '))
  | _ => none

/-- Leaves out the word between the sides of an alias, with the spaces around it. -/
def dropWord? (text : Text) : Option Text :=
  match dropSpaces? text with
  | some ('a' :: 's' :: rest) => dropSpaces? rest
  | _ => none

/-- The source of an alias that a whole text is, or else the text. -/
def source (text : Text) : Text :=
  let part := text.takeWhile isPartChar
  match dropWord? (text.dropWhile isPartChar) with
  | some target =>
    if !part.isEmpty && !target.isEmpty && target.all isPartChar then part else text
  | none => text

/-- A text without the build metadata behind it. -/
def withoutMetadata (text : Text) : Text :=
  let isVersionChar (c : Char) : Bool := isPartChar c && c != '+'
  match text.takeWhile isVersionChar, text.dropWhile isVersionChar with
  | version, '+' :: metadata =>
    if !version.isEmpty && !metadata.isEmpty && metadata.all (!Text.isBlank ·) then version
    else text
  | _, _ => text

/-- Whether the full text ends in `as` and the version, with spaces before each of the two. -/
def isTarget (full version : Text) : Bool :=
  match version.reverse.isPrefixOf? full.reverse with
  | some before =>
    match dropSpaces? before with
    | some ('s' :: 'a' :: ' ' :: _) => true
    | _ => false
  | none => false

/-- Whether the full text begins with the version and `as`, with spaces behind each of the two. -/
def isSource (full version : Text) : Bool :=
  match version.isPrefixOf? full with
  | some after => (dropWord? after).isSome
  | none => false

/-- The side of an alias, if any, that a version is in the full text. -/
def fault? (full version : Text) : Option AliasFault :=
  if isTarget full version then some (.target full)
  else if isSource full version then some (.source full)
  else none

end VersionRanges.Alias
