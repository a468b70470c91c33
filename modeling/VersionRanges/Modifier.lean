/-
# Modifiers

What follows the numbers of a version: a stability label with a tail of numbers, and a mark for
development versions, as in `-beta.2`, `RC1dev` or `_pl3-dev`. This module reads a modifier from the
front of a text and writes the canonical form of one.

Reading takes as much as it can. That is no loss for the grammars built on it, because none of them
goes on with a letter, a digit or a separator after a modifier.
-/
import VersionRanges.Text.Caseless
import VersionRanges.Text.DecimalDigit
import VersionRanges.Text.Lowercase

namespace VersionRanges

/-- A modifier: the stability label as it was spelled (empty where there is none), the tail of
numbers after the label, and whether the version is marked as a development version. -/
structure Modifier where
  label : Text
  tail : Text
  isDev : Bool
deriving DecidableEq, Repr

namespace Modifier

/-- Whether a character may stand before a number of a tail or before the development mark. -/
def isJoint (c : Char) : Bool := c == '.' || c == '-'

/-- Whether a character may stand before a modifier. -/
def isSeparator (c : Char) : Bool := c == '.' || c == '_' || c == '-'

/-- Leaves out one character with a property, if the text begins with one. -/
def dropOne (property : Char → Bool) : Text → Text
  | [] => []
  | c :: rest => if property c then rest else c :: rest

/-- The stability labels, in the order in which they are tried: a label stands before each label
that is a beginning of it. -/
def labels : List Text :=
  ["stable".toList, "beta".toList, "b".toList, "rc".toList, "alpha".toList, "a".toList,
    "patch".toList, "pl".toList, "p".toList]

/-- Splits a text into the label that it begins with, as spelled, and the rest. -/
def readLabel? (text : Text) : Option (Text × Text) :=
  labels.findSome? (Text.keyword? · text)

/-- Splits a text into the tail of numbers that it begins with and the rest. Each number may have a
joint before it. -/
def readTail : Text → Text × Text
  | [] => ([], [])
  | c :: rest =>
    if Text.isDecimalDigit c || (isJoint c && (rest.head?.map Text.isDecimalDigit).getD false) then
      Prod.map (c :: ·) id (readTail rest)
    else ([], c :: rest)

/-- Reads the development mark that a text may begin with, with an optional joint before it. -/
def readDev (text : Text) : Bool × Text :=
  match Text.keyword? "dev".toList (dropOne isJoint text) with
  | some (_, rest) => (true, rest)
  | none => (false, text)

/-- Splits a text into the modifier that it begins with and the rest. The modifier may be empty. -/
def read (text : Text) : Modifier × Text :=
  let start := dropOne isSeparator text
  match readLabel? start with
  | some (label, afterLabel) =>
    let (tail, afterTail) := readTail afterLabel
    let (isDev, rest) := readDev afterTail
    (⟨label, tail, isDev⟩, rest)
  | none =>
    let (isDev, rest) := readDev start
    (⟨[], [], isDev⟩, rest)

/-- The full name of a label: short labels are written out, a release candidate in capitals. -/
def expandLabel (label : Text) : Text :=
  let lower := Text.lowercase label
  if lower = "a".toList then "alpha".toList
  else if lower = "b".toList then "beta".toList
  else if lower = "p".toList || lower = "pl".toList then "patch".toList
  else if lower = "rc".toList then "RC".toList
  else lower

/-- Whether the modifier has a label. -/
def hasLabel (modifier : Modifier) : Bool := !modifier.label.isEmpty

/-- Whether the modifier says nothing about the stability of a version. -/
def isSilent (modifier : Modifier) : Bool := !modifier.hasLabel && !modifier.isDev

/-- The label and its tail in canonical form. -/
def labelSuffix (modifier : Modifier) : Text :=
  if modifier.hasLabel then
    '-' :: expandLabel modifier.label ++ modifier.tail.dropWhile isJoint
  else []

/-- The development mark in canonical form. -/
def devSuffix (modifier : Modifier) : Text :=
  if modifier.isDev then "-dev".toList else []

/-- The canonical form of a modifier behind a normal form. The label `stable`, in ASCII letters of
either case, is left out, and with it the rest of the modifier. -/
def suffix (modifier : Modifier) : Text :=
  if modifier.label.map Char.toLower = "stable".toList then []
  else modifier.labelSuffix ++ modifier.devSuffix

end Modifier

end VersionRanges
