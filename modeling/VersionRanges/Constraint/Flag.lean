/-
# Flags and references

A constraint or one of its terms may end in a stability flag, as in `1.0@beta`, and a constraint on
a development version may end in a reference to a commit, as in `dev-main#abc`. This module cuts
them off.
-/
import VersionRanges.Text.Caseless
import VersionRanges.Version.Alias

namespace VersionRanges.Flag

/-- The stabilities that a flag may name, in lower case. -/
def names : List Text :=
  ["stable".toList, "rc".toList, "beta".toList, "alpha".toList, "dev".toList]

/-- Splits a text that ends in a flag into what stands before the flag and the stability that it
names, as spelled. What stands before holds no comma and no blank. -/
def split? (text : Text) : Option (Text × Text) :=
  let name := (text.reverse.takeWhile (· != '@')).reverse
  match text.reverse.dropWhile (· != '@') with
  | '@' :: before =>
    if names.any (Text.spells · name) && before.all Alias.isPartChar then
      some (before.reverse, name)
    else none
  | _ => none

/-- A constraint without the flag behind it. A flag alone leaves the constraint that admits
everything. -/
def cut (text : Text) : Text :=
  match split? text with
  | some ([], _) => ['*']
  | some (before, _) => before
  | none => text

end VersionRanges.Flag

namespace VersionRanges.Reference

/-- Whether a character may be part of the version before a reference. -/
def isVersionChar (c : Char) : Bool := Alias.isPartChar c && c != '@'

/-- Whether a text can be what stands behind the number sign of a reference: something on one
line. -/
def isCommit (text : Text) : Bool := !text.isEmpty && !text.contains '\n'

/-- Splits a text before the first place at which a reading succeeds. The characters before that
place have to be characters of a version. -/
def splitBefore? {α : Type} (reading : Text → Option α) : Text → Option (Text × α)
  | [] => none
  | c :: rest =>
    match reading (c :: rest) with
    | some value => some ([], value)
    | none =>
      if isVersionChar c then (splitBefore? reading rest).map (Prod.map (c :: ·) id) else none

/-- Reads a reference, which begins with a number sign. -/
def readHash? : Text → Option Unit
  | '#' :: commit => if isCommit commit then some () else none
  | _ => none

/-- Reads the ending of a numeric development branch before a reference. -/
def readOpenEnding? (text : Text) : Option Text :=
  match Text.keyword? ".x-dev".toList text with
  | some (ending, rest) => (readHash? rest).map fun _ => ending
  | none => none

/-- A marked branch without the reference behind it. The name of the branch is not empty. -/
def cutBranch? (text : Text) : Option Text :=
  match Text.keyword? "dev-".toList text with
  | some (marker, c :: rest) =>
    if isVersionChar c then
      (splitBefore? readHash? rest).map fun (name, _) => marker ++ c :: name
    else none
  | _ => none

/-- A numeric development branch without the reference behind it. -/
def cutNumeric? : Text → Option Text
  | c :: rest =>
    if isVersionChar c then
      (splitBefore? readOpenEnding? rest).map fun (numbers, ending) => c :: numbers ++ ending
    else none
  | [] => none

/-- A constraint without the reference behind it. -/
def cut (text : Text) : Text := ((cutBranch? text).or (cutNumeric? text)).getD text

end VersionRanges.Reference
